import RooTransport.Base.Run
import RooTransport.Messaging.LossySending

/-!
# Messages arrive whole, in order and on their connection

The receive loop cuts the bytes of a connection at the size fields
(`link_messaging.cpp:103–143`). What it dispatches are the first messages that were put on
the connection at the other side, as long as every size fits its field.
-/

namespace RooTransport.Messaging

open RooTransport.Base RooTransport.Link

/-! ### Reading -/

/-- The messages dispatched are what the bytes read are cut into, but for some bytes at the end. -/
def Conn.Parsed (c : Conn) (written rest : List UInt8) : Prop :=
  c.taken ≤ written.length ∧ ∃ pieces : List (List UInt8 × List UInt8),
    (∀ p ∈ pieces, IsPiece 4 (fun field ↦ (loadBeU32 field).toNat) p) ∧
    pieces.map (·.2) = c.dispatched.map (·.2) ∧ written.take c.taken = joined pieces ++ rest

namespace Conn

variable {c c' : Conn} {w w' rest : List UInt8}

/-- What is read is not affected by more being written. -/
theorem Parsed.mono (h : c.Parsed w rest) (hw : w <+: w') : c.Parsed w' rest := by
  obtain ⟨hlen, pieces, hpieces, hdisp, htake⟩ := h
  obtain ⟨t, rfl⟩ := hw
  refine ⟨?_, pieces, hpieces, hdisp, ?_⟩
  · rw [List.length_append]
    omega
  · rw [List.take_append_of_le_length hlen]
    exact htake

private theorem Parsed.congr (h : c.Parsed w rest) (ht : c'.taken = c.taken)
    (hd : c'.dispatched = c.dispatched) : c'.Parsed w rest := by
  unfold Parsed at h ⊢
  rw [ht, hd]
  exact h

private theorem Parsed.take (h : c.Parsed w rest) {bytes : List UInt8}
    (hb : bytes = [] ∨ bytes <+: w.drop c.taken) :
    Parsed { c with taken := c.taken + bytes.length } w (rest ++ bytes) := by
  obtain ⟨hlen, pieces, hpieces, hdisp, htake⟩ := h
  obtain rfl | hb := hb
  · exact ⟨hlen, pieces, hpieces, hdisp, by simpa using htake⟩
  have hmore : bytes.length ≤ w.length - c.taken := by
    simpa using hb.length_le
  refine ⟨by dsimp only; omega, pieces, hpieces, hdisp, ?_⟩
  rw [List.take_add, htake, ← List.prefix_iff_eq_take.mp hb, List.append_assoc]

private theorem Parsed.dispatch {field got : List UInt8} (h : c.Parsed w (field ++ got))
    (hfield : field.length = 4) (hgot : got.length = (loadBeU32 field).toNat) (id : UInt32) :
    Parsed { c with dispatched := c.dispatched ++ [(id, got)] } w [] := by
  obtain ⟨hlen, pieces, hpieces, hdisp, htake⟩ := h
  refine ⟨hlen, pieces ++ [(field, got)], fun p hp ↦ ?_, ?_, ?_⟩
  · obtain hp | hp := List.mem_append.mp hp
    · exact hpieces p hp
    · rw [List.mem_singleton.mp hp]
      exact ⟨hfield, hgot⟩
  · simp [hdisp]
  · simpa using htake

end Conn

/-- What the loop has read on a connection without dispatching it. -/
inductive Unread (maxRecvPacketSize : Nat) (id : UInt32) : ReceiveLoop → List UInt8 → Prop
  | entering : Unread maxRecvPacketSize id (.entering id) []
  | size (got : List UInt8) (waiting : Bool) : got.length ≤ 4 →
      Unread maxRecvPacketSize id (.reading id none got waiting) got
  | data (field got : List UInt8) (waiting : Bool) : field.length = 4 →
      (loadBeU32 field).toNat ≤ maxRecvPacketSize → got.length ≤ (loadBeU32 field).toNat →
      Unread maxRecvPacketSize id (.reading id (some (loadBeU32 field).toNat) got waiting)
        (field ++ got)

namespace Side

variable {others others' : List Conn} {made : Option Sent} {x x' : Side} {m : LinkMessaging}

/-- The reading half of a side is in order. -/
structure Receiving (x : Side) (others : List Conn) : Prop where
  told : ∀ c ∈ x.conns, ∀ d ∈ c.dispatched,
    d.1 = c.id ∧ d.2.length ≤ x.messaging.maxRecvPacketSize
  parsed : ∀ c ∈ x.conns, ∃ rest, c.Parsed (writtenAt others c.peer) rest
  loop : Away x.messaging.loop ∨ ∃ c ∈ x.conns.head?, ∃ rest,
    Unread x.messaging.maxRecvPacketSize c.id x.messaging.loop rest ∧
      c.Parsed (writtenAt others c.peer) rest

private theorem receiving_new (maxRecvPacketSize : Nat) (others : List Conn) :
    (new maxRecvPacketSize).Receiving others where
  told := by simp [new]
  parsed := by simp [new]
  loop := .inl trivial

private theorem Receiving.mono (h : x.Receiving others)
    (hmore : ∀ n, writtenAt others n <+: writtenAt others' n) : x.Receiving others' where
  told := h.told
  parsed c hc := by
    obtain ⟨rest, hparsed⟩ := h.parsed c hc
    exact ⟨rest, hparsed.mono (hmore c.peer)⟩
  loop := by
    apply h.loop.imp_right
    rintro ⟨c, hc, rest, hunread, hparsed⟩
    exact ⟨c, hc, rest, hunread, hparsed.mono (hmore c.peer)⟩

private theorem Receiving.quiet (h : x.Receiving others) (hm : Similar x.messaging m) :
    Receiving { x with messaging := m } others where
  told := by
    dsimp only
    rw [hm.maxRecvPacketSize]
    exact h.told
  parsed := h.parsed
  loop := by
    obtain hsame | haway := hm.loop
    · dsimp only
      rw [hsame, hm.maxRecvPacketSize]
      exact h.loop
    · exact .inl haway

-- What is noted of the newest connection is not about what is read.
private theorem Receiving.keep (h : x.Receiving others) {f : Conn → Conn}
    (hmax : m.maxRecvPacketSize = x.messaging.maxRecvPacketSize)
    (hloop : m.loop = x.messaging.loop)
    (hf : ∀ c, (f c).id = c.id ∧ (f c).peer = c.peer ∧ (f c).taken = c.taken ∧
      (f c).dispatched = c.dispatched) :
    Receiving { x with messaging := m, conns := onNewest f x.conns } others where
  told c hc := by
    dsimp only
    rw [hmax]
    obtain hc | ⟨c', hc', rfl⟩ := mem_onNewest hc
    · exact h.told c hc
    obtain ⟨hid, -, -, hdisp⟩ := hf c'
    rw [hid, hdisp]
    exact h.told c' (List.mem_of_mem_head? hc')
  parsed c hc := by
    obtain hc | ⟨c', hc', rfl⟩ := mem_onNewest hc
    · exact h.parsed c hc
    obtain ⟨-, hpeer, htaken, hdisp⟩ := hf c'
    obtain ⟨rest, hparsed⟩ := h.parsed c' (List.mem_of_mem_head? hc')
    rw [hpeer]
    exact ⟨rest, hparsed.congr htaken hdisp⟩
  loop := by
    dsimp only
    rw [hloop, hmax, head_onNewest]
    apply h.loop.imp_right
    rintro ⟨c, hc, rest, hunread, hparsed⟩
    obtain ⟨hid, hpeer, htaken, hdisp⟩ := hf c
    refine ⟨f c, Option.mem_map_of_mem f hc, rest, ?_, ?_⟩
    · rw [hid]
      exact hunread
    · rw [hpeer]
      exact hparsed.congr htaken hdisp

private theorem Receiving.advance (h : x.Receiving others) {c : Conn} {rest : List UInt8}
    (hc : c ∈ x.conns.head?) {f : Conn → Conn} {loop : ReceiveLoop} (input : LinkStream)
    (htold : ∀ d ∈ (f c).dispatched,
      d.1 = (f c).id ∧ d.2.length ≤ x.messaging.maxRecvPacketSize)
    (hunread : Unread x.messaging.maxRecvPacketSize (f c).id loop rest)
    (hparsed : (f c).Parsed (writtenAt others (f c).peer) rest) :
    Receiving { x with
      messaging := { x.messaging with loop, link := { x.messaging.link with input } }
      conns := onNewest f x.conns } others where
  told c' hc' := by
    obtain hc' | ⟨c'', hc'', rfl⟩ := mem_onNewest hc'
    · exact h.told c' hc'
    · rw [Option.mem_unique hc'' hc]
      exact htold
  parsed c' hc' := by
    obtain hc' | ⟨c'', hc'', rfl⟩ := mem_onNewest hc'
    · exact h.parsed c' hc'
    · rw [Option.mem_unique hc'' hc]
      exact ⟨rest, hparsed⟩
  loop := by
    refine .inr ⟨f c, ?_, rest, hunread, hparsed⟩
    rw [head_onNewest]
    exact Option.mem_map_of_mem f hc

private theorem Receiving.connect (h : x.Receiving others) (id : UInt32) (peer : Nat) :
    Receiving { x with
      messaging := { x.messaging.notifyAll with link := .new id, loop := .entering id }
      conns := ⟨id, peer, .connecting, [], 0, [], []⟩ :: x.conns } others := by
  have hparsed : Conn.Parsed ⟨id, peer, .connecting, [], 0, [], []⟩ (writtenAt others peer) [] :=
    ⟨Nat.zero_le _, [], by simp, rfl, rfl⟩
  constructor
  case told =>
    intro c hc
    obtain rfl | hc := List.mem_cons.mp hc
    · simp
    · exact h.told c hc
  case parsed =>
    intro c hc
    obtain rfl | hc := List.mem_cons.mp hc
    · exact ⟨[], hparsed⟩
    · exact h.parsed c hc
  case loop => exact .inr ⟨_, rfl, [], .entering, hparsed⟩

private theorem Receiving.take (h : x.Receiving others) {id : UInt32} {size : Option Nat}
    {got bytes : List UInt8} {waiting : Bool}
    (hloop : x.messaging.loop = .reading id size got waiting)
    (hlen : bytes.length ≤ size.getD 4 - got.length)
    (hbytes : bytes = [] ∨
      ∃ c ∈ x.conns.head?, bytes <+: (writtenAt others c.peer).drop c.taken)
    (waiting' : Bool) (input : LinkStream) :
    Receiving { x with
      messaging := { x.messaging with
        loop := .reading id size (got ++ bytes) waiting'
        link := { x.messaging.link with input } }
      conns := onNewest (fun c ↦ { c with taken := c.taken + bytes.length }) x.conns } others := by
  have hon := h.loop.resolve_left (by simp [hloop, Away])
  rw [hloop] at hon
  obtain ⟨c, hc, rest, hunread, hparsed⟩ := hon
  have htold := h.told c (List.mem_of_mem_head? hc)
  have hmore : bytes = [] ∨ bytes <+: (writtenAt others c.peer).drop c.taken := by
    apply hbytes.imp_right
    rintro ⟨c', hc', hpre⟩
    rw [Option.mem_unique hc hc']
    exact hpre
  cases hunread with
  | size _ _ hgot =>
    refine h.advance hc input htold (.size (got ++ bytes) waiting' ?_) (hparsed.take hmore)
    rw [Option.getD_none] at hlen
    rw [List.length_append]
    omega
  | data field _ _ hfield hmax hgot =>
    have hread := hparsed.take hmore
    rw [List.append_assoc] at hread
    refine h.advance hc input htold (.data field (got ++ bytes) waiting' hfield hmax ?_) hread
    rw [Option.getD_some] at hlen
    rw [List.length_append]
    omega

private theorem Receiving.sized (h : x.Receiving others) {id : UInt32} {got : List UInt8}
    {waiting : Bool} (hloop : x.messaging.loop = .reading id none got waiting)
    (hlen : 4 ≤ got.length)
    (hsize : (loadBeU32 got).toNat ≤ x.messaging.maxRecvPacketSize) :
    Receiving { x with
      messaging := { x.messaging with
        loop := .reading id (some (loadBeU32 got).toNat) [] false } } others := by
  have hon := h.loop.resolve_left (by simp [hloop, Away])
  rw [hloop] at hon
  obtain ⟨c, hc, rest, hunread, hparsed⟩ := hon
  cases hunread with
  | size _ _ hgot =>
    refine ⟨h.told, h.parsed, .inr ⟨c, hc, got ++ [], ?_, ?_⟩⟩
    · exact .data got [] false (by omega) hsize (Nat.zero_le _)
    · rw [List.append_nil]
      exact hparsed

private theorem Receiving.dispatch (h : x.Receiving others) {id : UInt32} {n : Nat}
    {got : List UInt8} {waiting : Bool}
    (hloop : x.messaging.loop = .reading id (some n) got waiting) (hn : n ≤ got.length) :
    Receiving { x with
      messaging := { x.messaging with loop := .reading id none [] false }
      conns := onNewest (fun c ↦ { c with dispatched := c.dispatched ++ [(id, got)] }) x.conns }
      others := by
  have hon := h.loop.resolve_left (by simp [hloop, Away])
  rw [hloop] at hon
  obtain ⟨c, hc, rest, hunread, hparsed⟩ := hon
  cases hunread with
  | data field _ _ hfield hmax hgot =>
    refine h.advance hc x.messaging.link.input (fun d hd ↦ ?_)
      (.size [] false (Nat.zero_le _)) (hparsed.dispatch hfield (le_antisymm hgot hn) c.id)
    obtain hd | hd := List.mem_append.mp hd
    · exact h.told c (List.mem_of_mem_head? hc) d hd
    · rw [List.mem_singleton.mp hd]
      exact ⟨rfl, hgot.trans hmax⟩

private theorem Receiving.move (h : x.Receiving others) (hm : Move others made x x') :
    x'.Receiving others := by
  cases hm with
  | quiet m hsame => exact h.quiet hsame
  | start i e => exact ⟨h.told, h.parsed, h.loop⟩
  | lock | write | drift => exact h.keep rfl rfl fun c ↦ ⟨rfl, rfl, rfl, rfl⟩
  | unlock => exact ⟨h.told, h.parsed, h.loop⟩
  | connect id peer hfree => exact h.connect id peer
  | enter id hloop =>
    have hon := h.loop.resolve_left (by simp [hloop, Away])
    rw [hloop] at hon
    obtain ⟨c, hc, rest, hunread, hparsed⟩ := hon
    cases hunread
    exact ⟨h.told, h.parsed, .inr ⟨c, hc, [], .size [] false (Nat.zero_le _), hparsed⟩⟩
  | take id size got bytes waiting waiting' status hloop hlen hbytes =>
    exact h.take hloop hlen hbytes waiting' _
  | sized id got waiting hloop hlen hsize => exact h.sized hloop hlen hsize
  | dispatch id n got waiting hloop hn => exact h.dispatch hloop hn

end Side

/-! ### Both sides -/

private theorem mem_of_connAt {conns : List Conn} {n : Nat} {c : Conn}
    (h : connAt conns n = some c) : c ∈ conns := by
  induction conns with
  | nil => cases h
  | cons c' rest ih =>
    unfold connAt at h
    split at h
    · cases h
      exact List.mem_cons_self
    · exact List.mem_cons_of_mem _ (ih h)

private theorem connAt_eq_none {conns : List Conn} {n : Nat} (h : conns.length ≤ n) :
    connAt conns n = none := by
  induction conns with
  | nil => rfl
  | cons c rest ih =>
    rw [List.length_cons] at h
    rw [connAt, if_neg (by omega)]
    exact ih (by omega)

private theorem writtenAt_onNewest {f : Conn → Conn} (hf : ∀ c, c.written <+: (f c).written)
    (conns : List Conn) (n : Nat) : writtenAt conns n <+: writtenAt (onNewest f conns) n := by
  cases conns with
  | nil => exact List.prefix_rfl
  | cons c rest =>
    unfold onNewest writtenAt connAt
    split
    · exact hf c
    · exact List.prefix_rfl

namespace Side

variable {others : List Conn} {made : Option Sent} {x x' : Side}

/-- What is written stays. -/
theorem Move.writtenAt (hm : Move others made x x') (n : Nat) :
    writtenAt x.conns n <+: writtenAt x'.conns n := by
  cases hm with
  | quiet | start | unlock | enter | sized => exact List.prefix_rfl
  | write => exact writtenAt_onNewest (fun c ↦ List.prefix_append ..) _ n
  | lock | take | dispatch | drift =>
    apply writtenAt_onNewest
    intro c
    exact List.prefix_rfl
  | connect id peer hfree =>
    unfold Messaging.writtenAt
    rw [connAt]
    split
    · next hn =>
      rw [connAt_eq_none hn.ge]
      exact List.nil_prefix
    · exact List.prefix_rfl

private theorem Move.maxRecvPacketSize (hm : Move others made x x') :
    x'.messaging.maxRecvPacketSize = x.messaging.maxRecvPacketSize := by
  cases hm with
  | quiet m hsame => exact hsame.maxRecvPacketSize
  | _ => rfl

end Side

namespace Net

/-- All is in order, and all calls of a side are of the kind. -/
structure Orderly (maxRecvPacketSize : Bool → Nat) (P : Bool → Sent → Prop) (net : Net) : Prop where
  sending : ∀ side, (net side).Sending
  allSent : ∀ side, (net side).AllSent (P side)
  receiving : ∀ side, (net side).Receiving (net !side).conns
  size : ∀ side, (net side).messaging.maxRecvPacketSize = maxRecvPacketSize side

variable {maxRecvPacketSize : Bool → Nat} {P : Bool → Sent → Prop} {net net' : Net}

private theorem orderly_start (maxRecvPacketSize : Bool → Nat)
    (hP : ∀ side, P side ⟨none, .send [] []⟩) :
    (start maxRecvPacketSize).Orderly maxRecvPacketSize P where
  sending side := Side.sending_new _
  allSent side := ⟨fun _ ↦ hP side, by simp [start, Side.new]⟩
  receiving side := Side.receiving_new _ _
  size side := rfl

private theorem Orderly.step (h : net.Orderly maxRecvPacketSize P) {a : Bool × Side.Act}
    (hs : net.step a = .ok net') (hP : ∀ e ∈ a.2.made, P a.1 e) :
    net'.Orderly maxRecvPacketSize P := by
  obtain ⟨x, hx, rfl⟩ := map_eq_ok.mp hs
  obtain ⟨side, act⟩ := a
  have hm := Side.step_cases hx
  have hne : (!side) ≠ side := by simp
  -- Of the other side only what it may read has changed.
  have hboth {Q : Bool → Side → Prop} (hold : ∀ s, Q s (net s)) (hnew : Q side x) (s : Bool) :
      Q s (Function.update net side x s) := by
    by_cases hss : s = side
    · subst hss
      rw [Function.update_self]
      exact hnew
    · rw [Function.update_of_ne hss]
      exact hold s
  constructor
  case sending => exact hboth h.sending ((h.sending side).move hm)
  case allSent => exact hboth h.allSent ((h.allSent side).move hm hP)
  case size =>
    exact hboth (Q := fun s y ↦ y.messaging.maxRecvPacketSize = maxRecvPacketSize s) h.size
      (hm.maxRecvPacketSize.trans (h.size side))
  case receiving =>
    intro s
    obtain rfl | rfl : s = side ∨ s = !side := by cases s <;> cases side <;> simp
    · rw [Function.update_self, Function.update_of_ne hne]
      exact (h.receiving s).move hm
    · rw [Function.update_of_ne hne, Bool.not_not, Function.update_self]
      have hread := h.receiving (!side)
      rw [Bool.not_not] at hread
      exact hread.mono hm.writtenAt

end Net

/-! ### Delivery -/

/-- The size of the message fits its field, and a message that was not sent through a channel
does not start like one for a channel with a receiver. -/
structure Sent.Clear (receivers : List ChannelId) (e : Sent) : Prop where
  fits : e.wire.header.length + e.wire.payload.length < 2 ^ 32
  direct : e.origin = none → ∀ id ∈ receivers, e.message.head? ≠ some id

/-- Only such messages are sent to the other side. -/
def Net.Clear (receivers : Bool → List ChannelId) (_ : Net) (a : Bool × Side.Act) : Prop :=
  ∀ e ∈ a.2.made, e.Clear (receivers !a.1)

/-- What was dispatched on a connection, given what was sent on it. -/
structure Conn.Delivered (receivers : List ChannelId) (maxRecvPacketSize : Nat) (sent : List Sent)
    (c : Conn) : Prop where
  told : ∀ d ∈ c.dispatched, d.1 = c.id ∧ d.2.length ≤ maxRecvPacketSize
  whole : ∃ k, c.dispatched.map (·.2) = (sent.take k).map Sent.message ∧
    ∀ id ∈ receivers, MuxMessaging.channelMessages receivers id (c.dispatched.map (·.2)) =
      (sent.take k).filterMap (Sent.onChannel id)

private theorem Sent.isPiece {e : Sent}
    (h : e.wire.header.length + e.wire.payload.length < 2 ^ 32) :
    IsPiece 4 (fun field ↦ (loadBeU32 field).toNat) e.piece := by
  have hload (x : UInt32) : loadBeU32 (storeBeU32 x) = x := by
    simpa using loadBeU32_store x []
  constructor
  · simp [piece]
  · simp only [piece, message, hload, List.length_append]
    rw [UInt32.toNat_ofNat_of_lt' h]

/-- What is on a channel gets there with its first byte removed, and nothing else does. -/
theorem received_eq {receivers : List ChannelId} {e : Sent} (h : e.Clear receivers)
    {id : ChannelId} (hid : id ∈ receivers) :
    ((MuxMessaging.received receivers e.message).bind fun (id', data) ↦
      if id' = id then some data else none) = e.onChannel id := by
  cases horigin : e.origin with
  | none =>
    have hno : MuxMessaging.received receivers e.message = none := by
      cases hmsg : e.message with
      | nil => rfl
      | cons b data =>
        refine if_neg fun hb ↦ h.direct horigin b hb ?_
        rw [hmsg]
        rfl
    rw [hno, Sent.onChannel, horigin]
    rfl
  | some channel =>
    have hmsg : e.message = channel :: e.data := by
      unfold Sent.message Sent.wire Sent.data
      rw [horigin]
      cases e.call <;> rfl
    rw [hmsg, Sent.onChannel, horigin, MuxMessaging.received]
    by_cases hchannel : channel = id
    · subst hchannel
      simp [hid]
    · split <;> simp [hchannel]

private theorem channelMessages_eq {receivers : List ChannelId} {sent : List Sent}
    (h : ∀ e ∈ sent, e.Clear receivers) {id : ChannelId} (hid : id ∈ receivers) :
    MuxMessaging.channelMessages receivers id (sent.map Sent.message) =
      sent.filterMap (Sent.onChannel id) := by
  rw [MuxMessaging.channelMessages, List.filterMap_filterMap, List.filterMap_map]
  apply List.filterMap_congr
  intro e he
  exact received_eq (h e he) hid

/-- What is cut out of a part of what was sent are the first messages sent. -/
theorem Conn.Parsed.whole {c : Conn} {w rest : List UInt8} {sent : List Sent}
    (h : c.Parsed w rest) (hw : w <+: joined (sent.map Sent.piece))
    (hfits : ∀ e ∈ sent, e.wire.header.length + e.wire.payload.length < 2 ^ 32) :
    ∃ k, c.dispatched.map (·.2) = (sent.take k).map Sent.message := by
  obtain ⟨-, pieces, hpieces, hdisp, htake⟩ := h
  have hjoined : joined pieces <+: joined (sent.map Sent.piece) :=
    calc joined pieces
      _ <+: w.take c.taken := htake ▸ List.prefix_append ..
      _ <+: w := List.take_prefix ..
      _ <+: joined (sent.map Sent.piece) := hw
  have hsent : ∀ p ∈ sent.map Sent.piece, IsPiece 4 (fun field ↦ (loadBeU32 field).toNat) p := by
    intro p hp
    obtain ⟨e, he, rfl⟩ := List.mem_map.mp hp
    exact Sent.isPiece (hfits e he)
  have hpre := prefix_of_joined_prefix (by decide) hpieces hsent hjoined
  refine ⟨pieces.length, ?_⟩
  calc c.dispatched.map (·.2)
    _ = ((sent.map Sent.piece).take pieces.length).map (·.2) := by
      rw [← List.prefix_iff_eq_take.mp hpre, hdisp]
    _ = (sent.take pieces.length).map Sent.message := by
      rw [← List.map_take, List.map_map]
      rfl

/-- What a side can read on a connection is part of what was sent on it. -/
theorem Net.Orderly.sentAt {net : Net} {maxRecvPacketSize : Bool → Nat}
    {receivers : Bool → List ChannelId}
    (h : net.Orderly maxRecvPacketSize fun side e ↦ e.Clear (receivers !side)) (side : Bool)
    (n : Nat) :
    writtenAt (net !side).conns n <+: joined ((sentAt (net !side).conns n).map Sent.piece) ∧
      ∀ e ∈ sentAt (net !side).conns n, e.Clear (receivers side) := by
  unfold writtenAt Messaging.sentAt
  cases hc : connAt (net !side).conns n with
  | none => simp
  | some c =>
    have hmem := mem_of_connAt hc
    refine ⟨((h.sending (!side)).sound c hmem).written, fun e he ↦ ?_⟩
    simpa using (h.allSent (!side)).sent c hmem e he

/-- The loop gives up a connection on which a message is announced that it would not take. -/
theorem LinkMessaging.receiveLoop_oversize (m : LinkMessaging) (conns others : List Conn)
    {id : UInt32} {got : List UInt8} {waiting : Bool}
    (hloop : m.loop = .reading id none got waiting) (hgot : 4 ≤ got.length)
    (hsize : m.maxRecvPacketSize < (loadBeU32 got).toNat) (choice : Choice) :
    m.receiveLoop (lossyLayer others) conns choice =
      .ok ({ m with loop := .checking }, conns, some (.reset id)) := by
  unfold receiveLoop
  rw [hloop]
  simp only [read, Option.getD_none, if_pos hgot, readDone, if_pos hsize]

/-- In every run in which only clear messages are sent, what is dispatched on a connection are
the first messages sent on it, whole, in order and of the sizes allowed; the receiver of a
channel gets what was sent on the channel among them; what is written on a connection are
the first bytes of the messages sent on it, continuations of it only; and the loop gives up
the connection when a message is too long. -/
theorem messages_delivered (maxRecvPacketSize : Bool → Nat) (receivers : Bool → List ChannelId)
    {net : Net}
    (h : Reachable Net.step (Net.Clear receivers) (Net.start maxRecvPacketSize) net) (side : Bool) :
    (∀ n c, connAt (net side).conns n = some c → c.Sound ∧
      c.Delivered (receivers side) (maxRecvPacketSize side) (sentAt (net !side).conns c.peer)) ∧
    ∀ id got waiting choice, (net side).messaging.loop = .reading id none got waiting →
      4 ≤ got.length → maxRecvPacketSize side < (loadBeU32 got).toNat →
      (net side).messaging.receiveLoop (lossyLayer (net !side).conns) (net side).conns choice =
        .ok ({ (net side).messaging with loop := .checking }, (net side).conns,
          some (.reset id)) := by
  have horderly : net.Orderly maxRecvPacketSize fun side e ↦ e.Clear (receivers !side) := by
    apply h.invariant
    · apply Net.orderly_start
      intro side
      exact ⟨by decide, fun _ id _ ↦ by simp [Sent.message, Sent.wire, Call.header, Call.payload]⟩
    · intro net a net' hnet hclear hs
      exact hnet.step hs hclear
  constructor
  · intro n c hc
    have hmem := mem_of_connAt hc
    obtain ⟨hwritten, hclear⟩ := horderly.sentAt side c.peer
    obtain ⟨rest, hparsed⟩ := (horderly.receiving side).parsed c hmem
    obtain ⟨k, hk⟩ := hparsed.whole hwritten fun e he ↦ (hclear e he).fits
    refine ⟨(horderly.sending side).sound c hmem, ?_, k, hk, fun id hid ↦ ?_⟩
    · rw [← horderly.size side]
      exact (horderly.receiving side).told c hmem
    · rw [hk]
      exact channelMessages_eq (fun e he ↦ hclear e (List.mem_of_mem_take he)) hid
  · intro id got waiting choice hloop hgot hsize
    rw [← horderly.size side] at hsize
    exact LinkMessaging.receiveLoop_oversize _ _ _ hloop hgot hsize choice

instance (receivers : List ChannelId) (e : Sent) : Decidable (e.Clear receivers) :=
  have := List.decidableBAll (fun id ↦ e.message.head? ≠ some id) receivers
  decidable_of_iff (e.wire.header.length + e.wire.payload.length < 2 ^ 32 ∧
      (e.origin = none → ∀ id ∈ receivers, e.message.head? ≠ some id))
    ⟨fun h ↦ ⟨h.1, h.2⟩, fun h ↦ ⟨h.fits, h.direct⟩⟩

instance (receivers : Bool → List ChannelId) (net : Net) (a : Bool × Side.Act) :
    Decidable (net.Clear receivers a) :=
  match h : a.2.made with
  | none => .isTrue (by simp [Net.Clear, h])
  | some e => decidable_of_iff (e.Clear (receivers !a.1)) (by simp [Net.Clear, h])

/-- The receive loop takes `n` steps on a link that does all it is asked for. -/
def loops (side : Bool) (n : Nat) (id : UInt32) : List (Bool × Side.Act) :=
  List.replicate n (side, .run (.receiveLoop ⟨false, 100, .ok, id, 0⟩))

/-- A thread takes `mutex_` and goes on for `n` steps. -/
def writes (side : Bool) (i n : Nat) : List (Bool × Side.Act) :=
  (side, .run (.enter i)) ::
    List.replicate n (side, .run (.write i ⟨false, 100, .ok, 0, 0⟩))

/-- A message on channel 7 got through, and one sent directly is under way. -/
theorem messages_delivered_under_way :
    ∃ net c, Reachable Net.step (Net.Clear fun _ ↦ [7]) (Net.start fun _ ↦ 64) net ∧
      connAt (net true).conns 0 = some c ∧ c.dispatched = [(2, [7, 5, 6])] ∧
      c.Delivered [7] 64 [⟨some 7, .send [5] [6]⟩, ⟨none, .sendContinuation 1 [] [1]⟩] := by
  obtain ⟨net, hr, hp⟩ := Reachable.of_test Net.step (Net.Clear fun _ ↦ [7])
    (Net.start fun _ ↦ 64)
    ([(true, .run .begin)] ++ loops true 3 2 ++ [(false, .run .begin)] ++ loops false 2 1 ++
      [(false, .channelCall 0 7 (.send [5] [6]))] ++ writes false 0 7 ++
      [(false, .run (.call 1 (.sendContinuation 1 [] [1])))] ++ writes false 1 1 ++ loops true 5 2)
    (fun net ↦ (connAt (net true).conns 0).map (fun c ↦ (c.peer, c.dispatched)) =
        some (0, [(2, [7, 5, 6])]) &&
      sentAt (net false).conns 0 = [⟨some 7, .send [5] [6]⟩, ⟨none, .sendContinuation 1 [] [1]⟩])
    (by decide +kernel) (by decide +kernel)
  simp only [Bool.and_eq_true, decide_eq_true_eq, Option.map_eq_some_iff, Prod.mk.injEq] at hp
  obtain ⟨⟨c, hc, hpeer, hdisp⟩, hsent⟩ := hp
  obtain ⟨-, hdelivered⟩ := (messages_delivered (fun _ ↦ 64) (fun _ ↦ [7]) hr true).1 0 c hc
  rw [hpeer, Bool.not_true, hsent] at hdelivered
  exact ⟨net, c, hr, hc, hdisp, hdelivered⟩

private theorem direct_misrouted :
    ∃ net c, Reachable Net.step anyStep (Net.start fun _ ↦ 64) net ∧
      connAt (net true).conns 0 = some c ∧
      sentAt (net false).conns c.peer = [⟨none, .send [7] [1]⟩] ∧
      MuxMessaging.channelMessages [7] 7 (c.dispatched.map (·.2)) = [[1]] := by
  obtain ⟨net, hr, hp⟩ := Reachable.of_test Net.step anyStep (Net.start fun _ ↦ 64)
    ([(true, .run .begin)] ++ loops true 3 2 ++ [(false, .run .begin)] ++ loops false 2 1 ++
      [(false, .run (.call 0 (.send [7] [1])))] ++ writes false 0 7 ++ loops true 4 2)
    (fun net ↦ (connAt (net true).conns 0).map (fun c ↦ (c.peer, c.dispatched)) =
        some (0, [(2, [7, 1])]) &&
      sentAt (net false).conns 0 = [⟨none, .send [7] [1]⟩])
    (meets_anyStep ..) (by decide +kernel)
  simp only [Bool.and_eq_true, decide_eq_true_eq, Option.map_eq_some_iff, Prod.mk.injEq] at hp
  obtain ⟨⟨c, hc, hpeer, hdisp⟩, hsent⟩ := hp
  refine ⟨net, c, hr, hc, hpeer ▸ hsent, ?_⟩
  rw [hdisp]
  decide

/-- The message of thread 0 has been started, and the other side is about to read its size. -/
def announced (e : Sent) (blocks : List (List UInt8)) : Net
  | false =>
    ⟨{ ((LinkMessaging.new 64).setSender 0 (.entering e.wire)).setSender 0
          (.sending blocks false (some 1)) with
        link := .new 1
        mutex := some 0
        loop := .entering 1 },
      [⟨1, 0, .connecting, [], 0, [e], []⟩], Function.update (fun _ ↦ ⟨none, .send [] []⟩) 0 e⟩
  | true =>
    ⟨{ LinkMessaging.new 64 with link := .new 2, loop := .reading 2 none [] false },
      [⟨2, 0, .connecting, [], 0, [], []⟩], fun _ ↦ ⟨none, .send [] []⟩⟩

private theorem execute_announced (payload : List UInt8) :
    execute Net.step (Net.start fun _ ↦ 64)
      ([(true, .run .begin)] ++ loops true 3 2 ++ [(false, .run .begin)] ++ loops false 2 1 ++
        [(false, .run (.call 0 (.send [] payload))), (false, .run (.enter 0))]) =
      .ok (announced ⟨none, .send [] payload⟩ (Call.send [] payload).blocks) := by
  refine congrArg Except.ok (funext fun side ↦ ?_)
  cases side <;> rfl

private theorem overlong_cut :
    ∃ net c, Reachable Net.step anyStep (Net.start fun _ ↦ 64) net ∧
      connAt (net true).conns 0 = some c ∧
      sentAt (net false).conns c.peer = [⟨none, .send [] (List.replicate (2 ^ 32) 0)⟩] ∧
      c.dispatched = [(2, [])] := by
  -- The payload is never looked at, only its size is.
  generalize hpayload : List.replicate (2 ^ 32) (0 : UInt8) = payload
  have hlen : payload.length = 2 ^ 32 := by rw [← hpayload, List.length_replicate]
  have hblocks : (Call.send [] payload).blocks = [[0, 0, 0, 0], [], payload] := by
    rw [Call.blocks, Call.header, Call.payload, hlen]
    rfl
  have hstart := execute_announced payload
  rw [hblocks] at hstart
  have hr := Reachable.of_execute _ .start (meets_anyStep ..) hstart
  exact ⟨_, _, .of_execute ([(false, .run (.write 0 ⟨false, 100, .ok, 0, 0⟩))] ++ loops true 3 2) hr
    (meets_anyStep ..) rfl, rfl, rfl, rfl⟩

/-- A message that was sent directly gets to the receiver of channel 7, on which nothing was
sent; and the size of a message of `2 ^ 32` bytes is written as 0, so that an empty message is
dispatched in its place. -/
theorem messages_confused :
    (∃ net c, Reachable Net.step anyStep (Net.start fun _ ↦ 64) net ∧
      connAt (net true).conns 0 = some c ∧
      sentAt (net false).conns c.peer = [⟨none, .send [7] [1]⟩] ∧
      MuxMessaging.channelMessages [7] 7 (c.dispatched.map (·.2)) = [[1]]) ∧
    ∃ net c, Reachable Net.step anyStep (Net.start fun _ ↦ 64) net ∧
      connAt (net true).conns 0 = some c ∧
      sentAt (net false).conns c.peer = [⟨none, .send [] (List.replicate (2 ^ 32) 0)⟩] ∧
      c.dispatched = [(2, [])] :=
  ⟨direct_misrouted, overlong_cut⟩

end RooTransport.Messaging
