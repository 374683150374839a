import RooTransport.Base.Bytes
import RooTransport.Link.ThreadSafeReceiver

/-!
# Reading through the Arduino wrapper

`link/arduino/link_stream.cpp`, over what the polls of the channel give. `timedRead` passes the
same `buf` to every poll (`link_stream.cpp:62`), and returns `(size_t)-1` when the stream ends,
whether or not bytes were read before.
-/

namespace RooTransport.Link

open RooTransport.Base

/-- What `Channel::tryRead` has to give and how it leaves `status_`. -/
structure Poll where
  bytes : List UInt8
  status : Status
  bytes_eq_nil : status ≠ .ok → bytes = []

/-- Whatever the receiver of the channel answers is a poll. -/
theorem ThreadSafeReceiver.tryRead_poll {n : LinkBufferSize} {r r' : Receiver n} {count : Nat}
    {myStreamId : UInt32} {bytes : List UInt8} {status status' : Status} {ready ready' : Bool}
    (hcount : count ≠ 0)
    (h : tryRead r count myStreamId status ready = .ok (r', bytes, status', ready')) :
    ∃ poll : Poll, poll.bytes = bytes ∧ poll.status = status' := by
  refine ⟨⟨bytes, status', fun hne ↦ ?_⟩, rfl, rfl⟩
  rw [tryRead, if_neg hcount] at h
  split at h
  · cases h
    rfl
  split at h
  · cases h
  · cases h
    exact absurd rfl hne

/-- The members of `link_input_stream.h` that reading uses. -/
structure LinkInputStream where
  status : Status
  deriving DecidableEq, Repr

/-- `link_input_stream.cpp:57–60`. -/
def LinkInputStream.tryRead (s : LinkInputStream) (poll : Poll) (count : Nat) :
    LinkInputStream × List UInt8 :=
  if count = 0 ∨ s.status ≠ .ok then (s, []) else (⟨poll.status⟩, poll.bytes.take count)

/-- The variables of `timedRead`, and what `tryRead` gave so far. -/
structure Reading where
  stream : LinkInputStream
  buf : List UInt8
  total : Nat
  count : Nat
  pieces : List (List UInt8)
  deriving DecidableEq, Repr

namespace Reading

variable (sizeMax : Nat)

/-- `link_stream.cpp:62–70`: `some` is a `return`. -/
def tryOnce (r : Reading) (poll : Poll) : Reading × Option Nat :=
  let (stream, result) := r.stream.tryRead poll r.count
  let r := { r with stream, buf := overwrite r.buf result, pieces := r.pieces ++ [result] }
  if result.length = 0 ∧ stream.status ≠ .ok then (r, some sizeMax)
  else
    let r := { r with total := r.total + result.length, count := r.count - result.length }
    if r.count = 0 then (r, some r.total) else (r, none)

/-- `link_stream.cpp:61–72`. -/
def tries (r : Reading) : List Poll → Reading × Option Nat
  | [] => (r, none)
  | poll :: polls =>
    match r.tryOnce sizeMax poll with
    | (r, some result) => (r, some result)
    | (r, none) => r.tries polls

end Reading

/-- `Uptime::Now() - start` at the end of each round, in microseconds. Every round but the first
comes after another `delay(1)`. -/
structure Clock where
  elapsed : Nat → Nat
  delays : ∀ k, 1000 * k ≤ elapsed k

/-- The polls of a round. -/
def round (answers : Nat → Poll) (k : Nat) : List Poll :=
  (List.range 100).map fun i ↦ answers (100 * k + i)

/-- `link_stream.cpp:60–76`, from the `k`-th round on. -/
def timedReadLoop (sizeMax : Nat) (answers : Nat → Poll) (clock : Clock) (timeout k : Nat)
    (r : Reading) : Reading × Nat :=
  if r.count = 0 then (r, r.total)
  else
    match r.tries sizeMax (round answers k) with
    | (r, some result) => (r, result)
    | (r, none) =>
      if timeout < clock.elapsed k then (r, r.total)
      else timedReadLoop sizeMax answers clock timeout (k + 1) r
termination_by timeout + 1 - k
decreasing_by
  have hdelays := clock.delays k
  omega

/-- `link_stream.cpp:55–77`. -/
def timedRead (sizeMax : Nat) (answers : Nat → Poll) (clock : Clock) (stream : LinkInputStream)
    (buf : List UInt8) (count timeout : Nat) : Reading × Nat :=
  let r : Reading := ⟨stream, buf, 0, count, []⟩
  if stream.status ≠ .ok then (r, sizeMax)
  else timedReadLoop sizeMax answers clock timeout 0 r

/-- `link_stream.cpp:26–32`. -/
def readBytes (sizeMax : Nat) (answers : Nat → Poll) (clock : Clock) (stream : LinkInputStream)
    (buffer : List UInt8) (length getTimeout : Nat) : Reading × Nat :=
  timedRead sizeMax answers clock stream buffer length (1000 * getTimeout)

/-! ### What is read -/

/-- The polls there is time for, from the `k`-th round on. -/
def pollsFrom (answers : Nat → Poll) (clock : Clock) (timeout k : Nat) : List Poll :=
  round answers k ++
    if timeout < clock.elapsed k then [] else pollsFrom answers clock timeout (k + 1)
termination_by timeout + 1 - k
decreasing_by
  have hdelays := clock.delays k
  omega

/-- The pieces that polls give until all is read or the stream ends, and whether it ends. -/
def taken : Nat → List Poll → List (List UInt8) × Bool
  | _, [] => ([], false)
  | count, poll :: polls =>
    if poll.status ≠ .ok then ([[]], true)
    else
      let piece := poll.bytes.take count
      if count - piece.length = 0 then ([piece], false)
      else
        let (pieces, ended) := taken (count - piece.length) polls
        (piece :: pieces, ended)

variable (sizeMax : Nat)

private theorem Reading.tries_append (r : Reading) (polls polls' : List Poll) :
    r.tries sizeMax (polls ++ polls') =
      match r.tries sizeMax polls with
      | (r, some result) => (r, some result)
      | (r, none) => r.tries sizeMax polls' := by
  induction polls generalizing r with
  | nil => rfl
  | cons poll polls ih =>
    rw [List.cons_append, Reading.tries, Reading.tries]
    rcases r.tryOnce sizeMax poll with ⟨r', _ | result⟩
    · exact ih r'
    · rfl

/-- What a run of the loop leaves behind. -/
structure Reading.Took (r r' : Reading) (bs : List (List UInt8)) : Prop where
  pieces : r'.pieces = r.pieces ++ bs
  buf : r'.buf = bs.foldl overwrite r.buf
  total : r'.total = r.total + bs.flatten.length
  count : r'.count + bs.flatten.length = r.count

private theorem Reading.Took.refl (r : Reading) : r.Took r [] := ⟨by simp, rfl, rfl, rfl⟩

private theorem Reading.Took.trans {r r' r'' : Reading} {bs bs' : List (List UInt8)}
    (h : r.Took r' bs) (h' : r'.Took r'' bs') : r.Took r'' (bs ++ bs') where
  pieces := by rw [h'.pieces, h.pieces, List.append_assoc]
  buf := by rw [h'.buf, h.buf, List.foldl_append]
  total := by
    rw [h'.total, h.total, List.flatten_append, List.length_append]
    omega
  count := by
    have hcount := h.count
    have hcount' := h'.count
    rw [List.flatten_append, List.length_append]
    omega

/-- One poll. -/
theorem Reading.tryOnce_spec {r : Reading} (hstatus : r.stream.status = .ok) (hcount : r.count ≠ 0)
    (poll : Poll) :
    r.Took (r.tryOnce sizeMax poll).1 [poll.bytes.take r.count] ∧
    (r.tryOnce sizeMax poll).1.stream.status = poll.status ∧
    (r.tryOnce sizeMax poll).2 =
      if poll.status ≠ .ok then some sizeMax
      else if r.count - (poll.bytes.take r.count).length = 0 then
        some (r.tryOnce sizeMax poll).1.total
      else none := by
  have hread : r.stream.tryRead poll r.count = (⟨poll.status⟩, poll.bytes.take r.count) := by
    simp [LinkInputStream.tryRead, hstatus, hcount]
  have hle : (poll.bytes.take r.count).length ≤ r.count := List.length_take_le ..
  simp only [Reading.tryOnce, hread]
  by_cases hended : poll.status ≠ .ok
  · have hnil := poll.bytes_eq_nil hended
    simp only [hnil, List.take_nil, List.length_nil, hended, ne_eq, not_false_eq_true, and_self,
      if_true, overwrite_nil]
    exact ⟨⟨rfl, rfl, rfl, rfl⟩, trivial⟩
  · rw [not_not] at hended
    simp only [hended, ne_eq, not_true_eq_false, and_false, if_false]
    split
    · exact ⟨⟨rfl, rfl, by simp, by simp⟩, rfl, rfl⟩
    · exact ⟨⟨rfl, rfl, by simp, by simp⟩, rfl, rfl⟩

/-- The polls of any number of rounds. -/
theorem Reading.tries_spec {r : Reading} (hstatus : r.stream.status = .ok) (hcount : r.count ≠ 0)
    (polls : List Poll) :
    r.Took (r.tries sizeMax polls).1 (taken r.count polls).1 ∧
    (r.tries sizeMax polls).2.getD (r.tries sizeMax polls).1.total =
      if (taken r.count polls).2 then sizeMax else (r.tries sizeMax polls).1.total := by
  induction polls generalizing r with
  | nil => exact ⟨.refl r, rfl⟩
  | cons poll polls ih =>
    obtain ⟨htook, hpoll, hresult⟩ := Reading.tryOnce_spec sizeMax hstatus hcount poll
    rw [Reading.tries, taken]
    rcases hr : r.tryOnce sizeMax poll with ⟨r', result⟩
    rw [hr] at htook hpoll hresult
    dsimp only at htook hpoll hresult
    by_cases hended : poll.status ≠ .ok
    · rw [if_pos hended] at hresult ⊢
      subst hresult
      rw [poll.bytes_eq_nil hended, List.take_nil] at htook
      exact ⟨htook, rfl⟩
    · rw [if_neg hended] at hresult ⊢
      split at hresult
      · next hfull =>
        subst hresult
        simp only [hfull, if_true]
        exact ⟨htook, rfl⟩
      · next hfull =>
        subst hresult
        have hleft : r'.count = r.count - (poll.bytes.take r.count).length := by
          have hcount := htook.count
          simp only [List.flatten_singleton] at hcount
          omega
        have hrest := ih (r := r') (hpoll.trans (not_not.mp hended)) (by rwa [hleft])
        rw [hleft] at hrest
        simp only [hfull, if_false]
        exact ⟨htook.trans hrest.1, hrest.2⟩

private theorem Reading.tries_none {r r' : Reading} (hstatus : r.stream.status = .ok)
    (hcount : r.count ≠ 0) {polls : List Poll} (h : r.tries sizeMax polls = (r', none)) :
    r'.stream.status = .ok ∧ r'.count ≠ 0 := by
  induction polls generalizing r with
  | nil =>
    cases h
    exact ⟨hstatus, hcount⟩
  | cons poll polls ih =>
    obtain ⟨htook, hpoll, hresult⟩ := Reading.tryOnce_spec sizeMax hstatus hcount poll
    rw [Reading.tries] at h
    rcases hr : r.tryOnce sizeMax poll with ⟨r₁, _ | result⟩
    · rw [hr] at h htook hpoll hresult
      dsimp only at h htook hpoll hresult
      split at hresult
      · cases hresult
      next hended =>
      split at hresult
      · cases hresult
      next hfull =>
      have hleft := htook.count
      simp only [List.flatten_singleton] at hleft
      exact ih (hpoll.trans (not_not.mp hended)) (by omega) h
    · rw [hr] at h
      cases h

/-- The rounds are one run over the polls there is time for. -/
theorem timedReadLoop_eq (answers : Nat → Poll) (clock : Clock) (timeout k : Nat)
    {r : Reading} (hstatus : r.stream.status = .ok) (hcount : r.count ≠ 0) :
    timedReadLoop sizeMax answers clock timeout k r =
      ((r.tries sizeMax (pollsFrom answers clock timeout k)).1,
        (r.tries sizeMax (pollsFrom answers clock timeout k)).2.getD
          (r.tries sizeMax (pollsFrom answers clock timeout k)).1.total) := by
  induction hleft : timeout + 1 - k using Nat.strongRecOn generalizing k r with
  | _ left ih =>
    have hdelays := clock.delays k
    rw [timedReadLoop, if_neg hcount, pollsFrom, Reading.tries_append]
    rcases hr : r.tries sizeMax (round answers k) with ⟨r', _ | result⟩
    · obtain ⟨hstatus', hcount'⟩ := Reading.tries_none sizeMax hstatus hcount hr
      dsimp only
      split
      · rfl
      · exact ih _ (by omega) (k + 1) hstatus' hcount' rfl
    · rfl

/-- A poll that brings nothing. -/
def Poll.Quiet (poll : Poll) : Prop := poll.bytes = [] ∧ poll.status = .ok

instance (poll : Poll) : Decidable poll.Quiet := inferInstanceAs (Decidable (_ ∧ _))

/-- The first poll that is not quiet brings bytes, and all of them unless the later ones are
quiet. -/
def ReadInOnePiece (count : Nat) (polls : List Poll) : Prop :=
  match polls.dropWhile (·.Quiet) with
  | [] => True
  | poll :: polls => poll.status = .ok ∧ (count ≤ poll.bytes.length ∨ ∀ p ∈ polls, p.Quiet)

section Taken

variable {count : Nat} {poll : Poll} (polls : List Poll)

private theorem taken_ended (h : poll.status ≠ .ok) :
    taken count (poll :: polls) = ([[]], true) := by
  rw [taken, if_pos h]

private theorem taken_quiet (hcount : count ≠ 0) (h : poll.Quiet) :
    taken count (poll :: polls) = ([] :: (taken count polls).1, (taken count polls).2) := by
  simp [taken, h.1, h.2, hcount]

private theorem taken_full (h : poll.status = .ok) (hfull : count ≤ poll.bytes.length) :
    taken count (poll :: polls) = ([poll.bytes.take count], false) := by
  simp [taken, h, hfull]

private theorem taken_part (h : poll.status = .ok) (hpart : poll.bytes.length < count) :
    taken count (poll :: polls) = (poll.bytes :: (taken (count - poll.bytes.length) polls).1,
      (taken (count - poll.bytes.length) polls).2) := by
  have htake : poll.bytes.take count = poll.bytes := List.take_of_length_le (by omega)
  simp only [taken, h, ne_eq, not_true_eq_false, if_false, htake]
  rw [if_neg (by omega)]

private theorem taken_quiet_iff (hcount : count ≠ 0) :
    ((taken count polls).2 = false ∧ (taken count polls).1.filter (· ≠ []) = []) ↔
      ∀ poll ∈ polls, poll.Quiet := by
  induction polls with
  | nil => simp [taken]
  | cons poll polls ih =>
    rw [List.forall_mem_cons, ← ih]
    by_cases hquiet : poll.Quiet
    · simp [taken_quiet polls hcount hquiet, hquiet]
    by_cases hended : poll.status ≠ .ok
    · simp [taken_ended polls hended, hquiet]
    have hok : poll.status = .ok := not_not.mp hended
    have hbytes : poll.bytes ≠ [] := fun hnil ↦ hquiet ⟨hnil, hok⟩
    by_cases hfull : count ≤ poll.bytes.length
    · simp [taken_full polls hok hfull, hquiet, hbytes, hcount]
    · simp [taken_part polls hok (Nat.lt_of_not_le hfull), hquiet, hbytes]

private theorem taken_one_iff (hcount : count ≠ 0) :
    ((taken count polls).2 = false ∧ ((taken count polls).1.filter (· ≠ [])).length ≤ 1) ↔
      ReadInOnePiece count polls := by
  induction polls with
  | nil => simp [taken, ReadInOnePiece]
  | cons poll polls ih =>
    by_cases hquiet : poll.Quiet
    · simp only [ReadInOnePiece, List.dropWhile_cons, hquiet, decide_true, if_true] at ih ⊢
      rw [← ih, taken_quiet polls hcount hquiet]
      simp
    simp only [ReadInOnePiece, List.dropWhile_cons, hquiet, decide_false, Bool.false_eq_true,
      if_false]
    by_cases hended : poll.status ≠ .ok
    · simp [taken_ended polls hended, hended]
    have hok : poll.status = .ok := not_not.mp hended
    have hbytes : poll.bytes ≠ [] := fun hnil ↦ hquiet ⟨hnil, hok⟩
    by_cases hfull : count ≤ poll.bytes.length
    · simp only [taken_full polls hok hfull, hok, hfull, true_or, and_self, true_and, iff_true]
      exact List.length_filter_le ..
    · have hleft : count - poll.bytes.length ≠ 0 := by omega
      rw [taken_part polls hok (Nat.lt_of_not_le hfull)]
      simp only [hok, hfull, false_or, true_and, ← taken_quiet_iff polls hleft]
      simp [hbytes]

private theorem length_taken_ended (hcount : count ≠ 0) (hended : (taken count polls).2 = true) :
    (taken count polls).1.flatten.length < count := by
  induction polls generalizing count with
  | nil => simp [taken] at hended
  | cons poll polls ih =>
    by_cases hstatus : poll.status ≠ .ok
    · simp [taken_ended polls hstatus]
      omega
    have hok : poll.status = .ok := not_not.mp hstatus
    by_cases hfull : count ≤ poll.bytes.length
    · simp [taken_full polls hok hfull] at hended
    · rw [taken_part polls hok (Nat.lt_of_not_le hfull)] at hended ⊢
      have hrest := ih (by omega) hended
      rw [List.flatten_cons, List.length_append]
      omega

end Taken

/-- The count returned, the bytes consumed and the front of the buffer agree. -/
def Lossless (length : Nat) (out : Reading × Nat) : Prop :=
  out.2 ≤ length ∧ out.2 = out.1.pieces.flatten.length ∧
    out.1.buf.take out.2 = out.1.pieces.flatten

instance (length : Nat) (out : Reading × Nat) : Decidable (Lossless length out) :=
  inferInstanceAs (Decidable (_ ∧ _))

private theorem length_taken_le {length : Nat} (hzero : length ≠ 0) (polls : List Poll) :
    (taken length polls).1.flatten.length ≤ length := by
  have htook := (Reading.tries_spec 0 (r := ⟨⟨.ok⟩, [], 0, length, []⟩) rfl hzero polls).1.count
  dsimp only at htook
  omega

private theorem lossless_tries_iff {sizeMax length : Nat} {stream : LinkInputStream}
    (hlength : length ≤ sizeMax) (hok : stream.status = .ok) (hzero : length ≠ 0)
    {polls : List Poll} {buffer : List UInt8} :
    let out := Reading.tries sizeMax ⟨stream, buffer, 0, length, []⟩ polls
    Lossless length (out.1, out.2.getD out.1.total) ↔
      (taken length polls).2 = false ∧
        ((taken length polls).1.foldl overwrite buffer).take (taken length polls).1.flatten.length =
          (taken length polls).1.flatten := by
  intro out
  obtain ⟨htook, hresult⟩ := Reading.tries_spec sizeMax
    (r := ⟨stream, buffer, 0, length, []⟩) hok hzero polls
  have hle := length_taken_le hzero polls
  rw [Lossless, hresult, htook.pieces, htook.buf, htook.total]
  simp only [List.nil_append, Nat.zero_add]
  cases hended : (taken length polls).2 with
  | true =>
    have hlt := length_taken_ended polls hzero hended
    simp only [if_true, Bool.true_eq_false, false_and, iff_false, not_and]
    omega
  | false => simp only [Bool.false_eq_true, if_false, hle, true_and]

/-- Reading into any buffer is lossless exactly if the bytes come in one piece, and the stream
does not end before the time or all bytes have come. -/
theorem readBytes_lossless_iff {sizeMax length : Nat} (hmax : 0 < sizeMax)
    (hlength : length ≤ sizeMax) (answers : Nat → Poll) (clock : Clock)
    (stream : LinkInputStream) (getTimeout : Nat) :
    (∀ buffer : List UInt8, length ≤ buffer.length →
      Lossless length (readBytes sizeMax answers clock stream buffer length getTimeout)) ↔
    stream.status = .ok ∧
      (length = 0 ∨ ReadInOnePiece length (pollsFrom answers clock (1000 * getTimeout) 0)) := by
  by_cases hstatus : stream.status ≠ .ok
  · simp only [hstatus, false_and, iff_false]
    intro h
    have hloss := (h (List.replicate length 0) (by simp)).2.1
    simp [readBytes, timedRead, hstatus] at hloss
    omega
  have hok : stream.status = .ok := not_not.mp hstatus
  simp only [hok, true_and, readBytes, timedRead, ne_eq, not_true_eq_false, if_false]
  by_cases hzero : length = 0
  · subst hzero
    simp [timedReadLoop, Lossless]
  simp only [hzero, false_or]
  rw [← taken_one_iff _ hzero]
  simp only [timedReadLoop_eq sizeMax answers clock _ _ (r := ⟨stream, _, 0, length, []⟩) hok hzero,
    lossless_tries_iff hlength hok hzero]
  rw [← foldl_overwrite_eq_flatten_iff (length_taken_le hzero _)]
  constructor
  · intro h
    have hended := (h (List.replicate length 0) (by simp)).1
    exact ⟨hended, fun buffer hbuffer ↦ (h buffer hbuffer).2⟩
  · rintro ⟨hended, h⟩ buffer hbuffer
    exact ⟨hended, h buffer hbuffer⟩

/-- A clock that stands still but for the delays. -/
def Clock.delaysOnly : Clock := ⟨(1000 * ·), fun _ ↦ Nat.le_refl _⟩

/-- Polls that bring these bytes one after the other, and then nothing. -/
def answering (pieces : List (List UInt8)) (i : Nat) : Poll :=
  ⟨(pieces[i]?).getD [], .ok, by simp⟩

/-- A poll that brings a byte, and then the end of the stream. -/
def ending (i : Nat) : Poll :=
  if i = 0 then ⟨[1], .ok, by simp⟩ else ⟨[], .endOfStream, fun _ ↦ rfl⟩

/-- An empty poll, then all that is asked for. -/
theorem readBytes_lossless_at_once :
    Lossless 2
      (readBytes (2 ^ 32 - 1) (answering [[], [1, 2, 3]]) .delaysOnly ⟨.ok⟩ [0, 0] 2 1000) := by
  have hround : round (answering [[], [1, 2, 3]]) 0 =
      answering [[], [1, 2, 3]] 0 :: answering [[], [1, 2, 3]] 1 ::
        (round (answering [[], [1, 2, 3]]) 0).drop 2 := rfl
  have hpiece : ReadInOnePiece 2
      (pollsFrom (answering [[], [1, 2, 3]]) .delaysOnly (1000 * 1000) 0) := by
    rw [pollsFrom, hround]
    simp [ReadInOnePiece, Poll.Quiet, answering]
  exact (readBytes_lossless_iff (by decide) (by decide) _ _ ⟨.ok⟩ 1000).mpr
    ⟨rfl, .inr hpiece⟩ [0, 0] (by decide)

/-- The second piece is written over the first, and the end of the stream hides what came
before. -/
theorem readBytes_lossy :
    (¬ Lossless 2
      (readBytes (2 ^ 32 - 1) (answering [[1], [2]]) .delaysOnly ⟨.ok⟩ [0, 0] 2 1000)) ∧
    ¬ Lossless 2 (readBytes (2 ^ 32 - 1) ending .delaysOnly ⟨.ok⟩ [0, 0] 2 1000) := by
  constructor
  · rw [readBytes, timedRead, if_neg (by decide), timedReadLoop]
    decide +kernel
  · rw [readBytes, timedRead, if_neg (by decide), timedReadLoop]
    decide +kernel

end RooTransport.Link
