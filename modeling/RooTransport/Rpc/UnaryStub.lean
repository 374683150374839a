import RooTransport.Rpc.Client
import RooTransport.Rpc.SerializationRoundTrip

/-!
# Typed calls

`UnaryStub` of `rpc/client.h`: what it gives the caller, and whether it sends a request of
which a member could not be serialized. The status of a member with `serialize` only is not
looked at when the member is written into its aggregate (`serialization.h:166–173`).
-/

namespace RooTransport.Rpc

universe u

/-- `client.h:130–205`. -/
structure UnaryStub (Request Response : Type) where
  functionId : RpcFunctionId
  requestSerializer : Serializer Request
  responseDeserializer : Deserializer Response

namespace UnaryStub

variable {Request Response : Type}

/-- What `call` and `callAsync` share: the status if the request cannot be serialized, without
asking the client. -/
def submit (io : RooIo) (stub : UnaryStub Request Response) (client : RpcClient)
    (request : Request) : Except Check (Option RpcStatus × RpcClient) :=
  let serialized := stub.requestSerializer.serialize request
  if serialized.status ≠ .ok then .ok (some serialized.status, client)
  else (client.sendUnaryRpc io stub.functionId serialized.data).map fun client ↦ (none, client)

/-- `client.h:144–171`, up to `completed.wait()`. -/
def call (io : RooIo) (stub : UnaryStub Request Response) (client : RpcClient)
    (request : Request) : Except Check (Option RpcStatus × RpcClient) :=
  stub.submit io client request

/-- `client.h:179–200`, without what is done at the completion. -/
def callAsync (io : RooIo) (stub : UnaryStub Request Response) (client : RpcClient)
    (request : Request) : Except Check (Option RpcStatus × RpcClient) :=
  stub.submit io client request

/-- `client.h:156–165`: what `call` returns, and leaves in the caller's `response`. -/
def complete (stub : UnaryStub Request Response) (completion : Completion) (response : Response) :
    RpcStatus × Response :=
  if completion.status = .ok then stub.responseDeserializer completion.data response
  else (completion.status, response)

/-- `client.h:190–199`: what `callAsync` calls `completion_cb` with. The response is a new
object, whatever the default constructor makes it. -/
def completeAsync [Inhabited Response] (stub : UnaryStub Request Response)
    (completion : Completion) : RpcStatus × Response :=
  stub.complete completion default

/-- The caller is given a value exactly if the call succeeded and the response is what the
serializer makes of that value. -/
theorem complete_eq_ok {serializer : Serializer Response} {stub : UnaryStub Request Response}
    (h : Inverse serializer stub.responseDeserializer) (completion : Completion)
    (response val : Response) :
    stub.complete completion response = (.ok, val) ↔
      completion.status = .ok ∧ serializer.serialize val = ⟨.ok, completion.data⟩ := by
  rw [complete]
  split
  · next hok => simp [h completion.data response val, hok]
  · next hne => simp [hne]

/-- Values of any nesting come back as the handler returned them, whichever way the call was
made, and nothing else is taken for a value. -/
theorem response_returned_iff (t : Ty Scalar) [Inhabited (t.Val scalars)]
    (functionId : RpcFunctionId) (requestSerializer : Serializer Request)
    (completion : Completion) (response val : t.Val scalars) :
    let stub : UnaryStub Request (t.Val scalars) :=
      ⟨functionId, requestSerializer, t.deserializer scalars⟩
    let Returned := completion.status = .ok ∧
      (t.serializer scalars).serialize val = ⟨.ok, completion.data⟩
    (stub.complete completion response = (.ok, val) ↔ Returned) ∧
      (stub.completeAsync completion = (.ok, val) ↔ Returned) := by
  have hinverse := scalars_lawful.inverse_nested t
  exact ⟨complete_eq_ok hinverse completion response val,
    complete_eq_ok hinverse completion default val⟩

end UnaryStub

/-! ### Failures of members -/

section Types

variable {L : Type u} {leaves : Leaves L}

mutual

private theorem Ty.AllMembers.combine {P Q R : (t : Ty L) → t.Val leaves → Prop}
    (h : ∀ t val, P t val → t.AllMembers P val → Q t val → R t val) :
    (t : Ty L) → (val : t.Val leaves) → t.AllMembers P val → t.AllMembers Q val →
      t.AllMembers R val
  | .leaf _, _, _, _ => trivial
  | .pair a b, val, hp, hq =>
    ⟨⟨h a val.1 hp.1.1 hp.1.2 hq.1.1, Ty.AllMembers.combine h a val.1 hp.1.2 hq.1.2⟩,
      h b val.2 hp.2.1 hp.2.2 hq.2.1, Ty.AllMembers.combine h b val.2 hp.2.2 hq.2.2⟩
  | .tuple ts, val, hp, hq => Tys.AllMembers.combine h ts val hp hq

private theorem Tys.AllMembers.combine {P Q R : (t : Ty L) → t.Val leaves → Prop}
    (h : ∀ t val, P t val → t.AllMembers P val → Q t val → R t val) :
    (ts : Tys L) → (val : ts.Val leaves) → ts.AllMembers P val → ts.AllMembers Q val →
      ts.AllMembers R val
  | .one t, val, hp, hq =>
    ⟨h t val hp.1 hp.2 hq.1, Ty.AllMembers.combine h t val hp.2 hq.2⟩
  | .cons t ts, val, hp, hq =>
    ⟨⟨h t val.1 hp.1.1 hp.1.2 hq.1.1, Ty.AllMembers.combine h t val.1 hp.1.2 hq.1.2⟩,
      Tys.AllMembers.combine h ts val.2 hp.2 hq.2⟩

end

/-- The serializer of the type reports no failure. -/
def Ty.Succeeds (t : Ty L) (val : t.Val leaves) : Prop :=
  ((t.serializer leaves).serialize val).status = .ok

instance (t : Ty L) (val : t.Val leaves) : Decidable (t.Succeeds val) :=
  inferInstanceAs (Decidable (_ = _))

/-- No failure is reported by a serializer with `serialize` only. -/
def Ty.SerializeSucceeds : (t : Ty L) → t.Val leaves → Prop
  | .leaf l, val => (leaves.serializer l).serializeInto = none →
      ((leaves.serializer l).serialize val).status = .ok
  | .pair _ _, _ => True
  | .tuple _, _ => True

variable {Failed : DynamicSerialized → Prop}

private theorem succeeds_iff (hcoh : leaves.Coherent Failed) {t : Ty L} (ht : ∀ l, t ≠ .leaf l)
    (val : t.Val leaves) : t.Succeeds val ↔ t.AllMembers Ty.Writable val := by
  obtain ⟨hok, hfail⟩ := Ty.serialize_spec hcoh val ht
  constructor
  · intro hsucceeds
    by_contra hnot
    obtain ⟨out, hfailed, hout⟩ := hfail hnot
    rw [Ty.Succeeds, hout] at hsucceeds
    exact hcoh.status_ne hfailed hsucceeds
  · intro hall
    rw [Ty.Succeeds, hok hall]

private theorem succeeds_of_writable (hcoh : leaves.Coherent Failed) (t : Ty L)
    (val : t.Val leaves) (hwritable : t.Writable val) (hmembers : t.AllMembers Ty.Writable val)
    (hserialize : t.SerializeSucceeds val) : t.Succeeds val := by
  cases t with
  | leaf l =>
    rcases hwritable.1 with hnone | hok
    · exact hserialize hnone
    · exact hok
  | pair a b => exact (succeeds_iff hcoh (by simp) val).mpr hmembers
  | tuple ts => exact (succeeds_iff hcoh (by simp) val).mpr hmembers

private theorem serializeSucceeds_of_succeeds (t : Ty L) (val : t.Val leaves)
    (h : t.Succeeds val) : t.SerializeSucceeds val := by
  cases t with
  | leaf l => exact fun _ ↦ h
  | pair a b => exact trivial
  | tuple ts => exact trivial

/-- A failure of a member at any level keeps the request from being sent exactly if the failing
members do not all have `serialize` only, or if some member is too long. -/
theorem member_failure_reported_iff (hcoh : leaves.Coherent (·.status ≠ .ok)) {Response : Type}
    (t : Ty L) (ht : ∀ l, t ≠ .leaf l) (val : t.Val leaves) (functionId : RpcFunctionId)
    (deserializer : Deserializer Response) (io : RooIo) (client : RpcClient) :
    (¬ t.AllMembers Ty.Succeeds val →
      ((t.serializer leaves).serialize val).status ≠ .ok ∧
      UnaryStub.call io ⟨functionId, t.serializer leaves, deserializer⟩ client val =
        .ok (some ((t.serializer leaves).serialize val).status, client) ∧
      UnaryStub.callAsync io ⟨functionId, t.serializer leaves, deserializer⟩ client val =
        .ok (some ((t.serializer leaves).serialize val).status, client)) ↔
    (t.AllMembers Ty.SerializeSucceeds val ∨ ¬ t.AllMembers Ty.Reports val ∨
      ¬ t.AllMembers Ty.Fits val) := by
  have hstatus : ((t.serializer leaves).serialize val).status = .ok ↔
      t.AllMembers Ty.Writable val := succeeds_iff hcoh ht val
  constructor
  · intro h
    by_contra hnot
    simp only [not_or, not_not] at hnot
    obtain ⟨hserialize, hreports, hfits⟩ := hnot
    have hwritable : t.AllMembers Ty.Writable val :=
      Ty.AllMembers.combine (fun _ _ hr _ hf ↦ ⟨hr, hf⟩) t val hreports hfits
    have hfailure : ¬ t.AllMembers Ty.Succeeds val := fun hall ↦
      hserialize (Ty.AllMembers.combine (fun t val hs _ _ ↦ serializeSucceeds_of_succeeds t val hs)
        t val hall hall)
    exact (h hfailure).1 (hstatus.mpr hwritable)
  · intro hcond hfailure
    have hne : ((t.serializer leaves).serialize val).status ≠ .ok := by
      rw [ne_eq, hstatus]
      intro hwritable
      rcases hcond with hserialize | hreports | hfits
      · exact hfailure (Ty.AllMembers.combine (succeeds_of_writable hcoh) t val hwritable
          hserialize)
      · exact hreports (Ty.AllMembers.combine (fun _ _ hw _ _ ↦ hw.1) t val hwritable hwritable)
      · exact hfits (Ty.AllMembers.combine (fun _ _ hw _ _ ↦ hw.2) t val hwritable hwritable)
    have hunsent : UnaryStub.submit io ⟨functionId, t.serializer leaves, deserializer⟩ client val =
        .ok (some ((t.serializer leaves).serialize val).status, client) := if_pos hne
    exact ⟨hne, hunsent, hunsent⟩

end Types

/-! ### Two types of an application -/

/-- Numbers that must not be zero, without and with `serializeInto`. -/
inductive Positive
  | simple | streamed
  deriving DecidableEq, Repr

/-- Fail on zero, in the buffer of the whole message. -/
def Positive.serializeInto (val : UInt8) (result : DynamicSerialized) : DynamicSerialized :=
  if val = 0 then result.fail .invalidArgument else result.write [val]

/-- Fail on zero. -/
def Positive.serializer : Positive → Serializer UInt8
  | .simple => ⟨fun val ↦ if val = 0 then .simpleError .invalidArgument else .static [val], none⟩
  | .streamed => .ofInto Positive.serializeInto

/-- The two types with their serializers. -/
def positives : Leaves Positive := ⟨fun _ ↦ UInt8, Positive.serializer, fun _ ↦ .uint8⟩

private theorem serializeInto_zero (result : DynamicSerialized) :
    Positive.serializeInto 0 result = ⟨.invalidArgument, [], 0⟩ := rfl

private theorem serializeInto_pos {val : UInt8} (h : val ≠ 0) (result : DynamicSerialized) :
    Positive.serializeInto val result = result.write [val] := if_neg h

private theorem positives_coherent : positives.Coherent (·.status ≠ .ok) where
  status_ne h := h
  tooLong := by decide
  write {l f} hf (val : UInt8) out _ _ hok := by
    cases l with
    | simple => cases hf
    | streamed =>
      cases hf
      by_cases hzero : val = 0
      · subst hzero
        exact absurd hok (by decide)
      · show Positive.serializeInto val out = out.write (Positive.serializeInto val .new).data
        rw [serializeInto_pos hzero, serializeInto_pos hzero]
        rfl
  fail {l f} hf (val : UInt8) out _ _ hfail := by
    cases l with
    | simple => cases hf
    | streamed =>
      cases hf
      by_cases hzero : val = 0
      · subst hzero
        simp [serializeInto_zero, RpcStatus.invalidArgument, RpcStatus.ok]
      · have hok : (Positive.serializeInto val .new).status = .ok := by
          rw [serializeInto_pos hzero]
          rfl
        exact absurd hok hfail

/-- A failure reported through the buffer: nothing is sent. -/
theorem member_failure_reported_streamed :
    let t : Ty Positive := .pair (.leaf .simple) (.leaf .streamed)
    let val : t.Val positives := ((0 : UInt8), (0 : UInt8))
    UnaryStub.call .groups ⟨7, t.serializer positives, Deserializer.void⟩ .new val =
      .ok (some .invalidArgument, .new) ∧
    UnaryStub.callAsync .groups ⟨7, t.serializer positives, Deserializer.void⟩ .new val =
      .ok (some .invalidArgument, .new) := by
  intro t val
  have hiff := member_failure_reported_iff positives_coherent t (by simp [t]) val 7
    Deserializer.void .groups .new
  have hstreamed : ¬ t.AllMembers Ty.Reports val := by
    rintro ⟨-, hnone | hok, -⟩
    · cases hnone
    · exact absurd hok (by decide)
  have hfailure : ¬ t.AllMembers Ty.Succeeds val := by
    rintro ⟨-, hok, -⟩
    exact absurd hok (by decide)
  exact (hiff.mpr (.inr (.inl hstreamed)) hfailure).2

/-- A failure of a member with `serialize` only: an empty member is sent in its place. -/
theorem member_failure_swallowed :
    let t : Ty Positive := .pair (.leaf .simple) (.leaf .streamed)
    let val : t.Val positives := ((0 : UInt8), (1 : UInt8))
    ¬ t.AllMembers Ty.Succeeds val ∧
    (t.serializer positives).serialize val = ⟨.ok, [0, 0, 0, 1, 1]⟩ ∧
    (UnaryStub.call .groups ⟨7, t.serializer positives, Deserializer.void⟩ .new val).toOption.map
      (fun result ↦ result.2.submitted) = some 1 ∧
    (UnaryStub.callAsync .groups ⟨7, t.serializer positives, Deserializer.void⟩ .new
      val).toOption.map (fun result ↦ result.2.submitted) = some 1 := by
  refine ⟨?_, by decide, by decide +kernel, by decide +kernel⟩
  rintro ⟨⟨hok, -⟩, -⟩
  exact absurd hok (by decide)

end RooTransport.Rpc
