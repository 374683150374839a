import RooTransport.Base.Bytes
import RooTransport.Rpc.Header

/-!
# Serialization of RPC arguments

`rpc/serialization.h`. A serializer or deserializer is a record of its functions, so that pairs
and tuples can be put together of any members, an application's own included. A deserializer
gets what its result holds before, and gives what it holds then. The helpers of `roo_io` for
big-endian numbers are `beBytes` and `beNat`.
-/

namespace RooTransport.Rpc

open RooTransport.Base

/-- `kInvalidArgument`. -/
def RpcStatus.invalidArgument : RpcStatus := ⟨3⟩

/-! ### Serialized data -/

/-- What `status()`, `data()` and `size()` give. -/
structure Serialized where
  status : RpcStatus
  data : List UInt8
  deriving DecidableEq, Repr

namespace Serialized

/-- `serialization.h:28–36`. -/
def null : Serialized := ⟨.ok, []⟩

/-- `serialization.h:38–57` and `453–471`. -/
def static (data : List UInt8) : Serialized := ⟨.ok, data⟩

/-- `serialization.h:59–84`, a failure. -/
def simpleError (error : RpcStatus) : Serialized := ⟨error, []⟩

end Serialized

/-- `serialization.h:86–162`. -/
structure DynamicSerialized where
  status : RpcStatus
  data : List UInt8
  pos : Nat
  deriving DecidableEq, Repr

namespace DynamicSerialized

/-- `serialization.h:90`. -/
def new : DynamicSerialized := ⟨.ok, [], 0⟩

/-- `serialization.h:99–103`. -/
def fail (_ : DynamicSerialized) (status : RpcStatus) : DynamicSerialized := ⟨status, [], 0⟩

/-- `serialization.h:119`. -/
def eos (s : DynamicSerialized) : Bool := s.data.length ≤ s.pos

/-- Zeros up to the position. -/
def padded (s : DynamicSerialized) : List UInt8 :=
  s.data ++ List.replicate (s.pos - s.data.length) 0

/-- `serialization.h:122–132`. -/
def writeByte (s : DynamicSerialized) (b : UInt8) : DynamicSerialized :=
  if s.eos then { s with data := s.padded ++ [b], pos := s.pos + 1 }
  else { s with data := s.data.set s.pos b, pos := s.pos + 1 }

/-- `serialization.h:135–154`. -/
def write (s : DynamicSerialized) (buf : List UInt8) : DynamicSerialized :=
  let data := s.padded
  let copyOver := min (data.length - s.pos) buf.length
  let data := data.take s.pos ++ buf.take copyOver ++ data.drop (s.pos + copyOver)
  { s with data := data ++ buf.drop copyOver, pos := s.pos + buf.length }

/-- `serialization.h:157`. -/
def seek (s : DynamicSerialized) (position : Nat) : DynamicSerialized := { s with pos := position }

/-- `roo_io::WriteBeU16`. -/
def writeBeU16 (s : DynamicSerialized) (x : UInt16) : DynamicSerialized :=
  (beBytes 2 x.toNat).foldl writeByte s

/-- What is sent of the buffer. -/
def serialized (s : DynamicSerialized) : Serialized := ⟨s.status, s.data⟩

end DynamicSerialized

/-! ### Serializers -/

/-- `Serializer<T>`; `serializeInto` is there or not. -/
structure Serializer (α : Type) where
  serialize : α → Serialized
  serializeInto : Option (α → DynamicSerialized → DynamicSerialized)

namespace Serializer

variable {α β : Type}

/-- `serialization.h:165–193`, `SerializeInto`. -/
def into (s : Serializer α) (val : α) (output : DynamicSerialized) : DynamicSerialized :=
  match s.serializeInto with
  | none => output.write (s.serialize val).data
  | some serializeInto => serializeInto val output

/-- `serialization.h:494–510`. The length is a difference of unsigned numbers. -/
def memberInto (s : Serializer α) (val : α) (result : DynamicSerialized) : DynamicSerialized :=
  let start := result.pos
  let result := s.into val (result.seek (start + 2))
  if result.status ≠ .ok then result
  else
    let stop := result.pos
    if stop < start + 2 ∨ 65535 < stop - (start + 2) then result.fail .invalidArgument
    else
      let result := (result.seek start).writeBeU16 (UInt16.ofNat (stop - (start + 2)))
      result.seek stop

/-- A serializer with `serializeInto`, as those of pairs and tuples. -/
def ofInto (serializeInto : α → DynamicSerialized → DynamicSerialized) : Serializer α where
  serialize val := (serializeInto val .new).serialized
  serializeInto := some serializeInto

/-- `serialization.h:534–552`. -/
def pair (s : Serializer α) (t : Serializer β) : Serializer (α × β) :=
  .ofInto fun val result ↦
    let result := s.memberInto val.1 result
    if result.status ≠ .ok then result else t.memberInto val.2 result

end Serializer

/-! ### Deserializers -/

/-- `Deserializer<T>::deserialize`. -/
abbrev Deserializer (α : Type) := List UInt8 → α → RpcStatus × α

namespace Deserializer

variable {α β : Type}

/-- `serialization.h:513–532`, with what is left of the data. -/
def member (d : Deserializer α) (data : List UInt8) (result : α) : RpcStatus × α × List UInt8 :=
  if data.length < 2 then (.invalidArgument, result, data)
  else
    let memberLen := beNat (data.take 2)
    if data.length - 2 < memberLen then (.invalidArgument, result, data)
    else
      let data := data.drop 2
      let (status, result) := d (data.take memberLen) result
      if status ≠ .ok then (status, result, data) else (.ok, result, data.drop memberLen)

/-- `serialization.h:554–574`. -/
def pair (d : Deserializer α) (e : Deserializer β) : Deserializer (α × β) := fun data result ↦
  let (status, first, data) := d.member data result.1
  if status ≠ .ok then (status, first, result.2)
  else
    let (status, second, data) := e.member data result.2
    if status ≠ .ok then (status, first, second)
    else if data.length ≠ 0 then (.invalidArgument, first, second)
    else (.ok, first, second)

/-- `serialization.h:605–620`, `DeserializeTupleRecursive`, at the last member. -/
def last (d : Deserializer α) : Deserializer α := fun data result ↦
  let (status, val, data) := d.member data result
  if status ≠ .ok then (status, val)
  else if data.length ≠ 0 then (.invalidArgument, val)
  else (.ok, val)

/-- `serialization.h:605–620`, `DeserializeTupleRecursive`, with the rest of the members. -/
def next (d : Deserializer α) (ds : Deserializer β) : Deserializer (α × β) := fun data result ↦
  let (status, val, data) := d.member data result.1
  if status ≠ .ok then (status, val, result.2)
  else
    let (status, vals) := ds data result.2
    (status, val, vals)

end Deserializer

/-! ### Types -/

section Types

universe u

mutual

/-- Types put together of others. -/
inductive Ty (L : Type u) : Type u
  | leaf (l : L)
  | pair (a b : Ty L)
  | tuple (ts : Tys L)

/-- The members of a tuple, at least one. -/
inductive Tys (L : Type u) : Type u
  | one (t : Ty L)
  | cons (t : Ty L) (ts : Tys L)

end

/-- What a type that is not put together means. -/
structure Leaves (L : Type u) where
  Val : L → Type
  serializer : ∀ l, Serializer (Val l)
  deserializer : ∀ l, Deserializer (Val l)

variable {L : Type u} (leaves : Leaves L)

mutual

/-- The values of a type. -/
def Ty.Val : Ty L → Type
  | .leaf l => leaves.Val l
  | .pair a b => a.Val × b.Val
  | .tuple ts => ts.Val

/-- The values of a list of types, the last one not paired with anything. -/
def Tys.Val : Tys L → Type
  | .one t => t.Val
  | .cons t ts => t.Val × ts.Val

end

mutual

/-- The serializer that a type selects. -/
def Ty.serializer : (t : Ty L) → Serializer (t.Val leaves)
  | .leaf l => leaves.serializer l
  | .pair a b => .pair a.serializer b.serializer
  | .tuple ts => .ofInto ts.serializeRecursive

/-- `serialization.h:582–603`, `SerializeTupleRecursive`. -/
def Tys.serializeRecursive : (ts : Tys L) → ts.Val leaves → DynamicSerialized → DynamicSerialized
  | .one t, val, result => t.serializer.memberInto val result
  | .cons t ts, val, result =>
    let result := t.serializer.memberInto val.1 result
    if result.status ≠ .ok then result else ts.serializeRecursive val.2 result

end

mutual

/-- The deserializer that a type selects. -/
def Ty.deserializer : (t : Ty L) → Deserializer (t.Val leaves)
  | .leaf l => leaves.deserializer l
  | .pair a b => .pair a.deserializer b.deserializer
  | .tuple ts => ts.deserializeRecursive

/-- `serialization.h:605–620`, `DeserializeTupleRecursive`. -/
def Tys.deserializeRecursive : (ts : Tys L) → Deserializer (ts.Val leaves)
  | .one t => .last t.deserializer
  | .cons t ts => .next t.deserializer ts.deserializeRecursive

end

end Types

/-! ### Basic types -/

/-- The serializers of numbers, with the width and the bits of the value. -/
def Serializer.fixed {α : Type} (width : Nat) (bits : α → Nat) : Serializer α where
  serialize val := .static (beBytes width (bits val))
  serializeInto := none

/-- The deserializers of numbers. -/
def Deserializer.fixed {α : Type} (width : Nat) (ofBits : Nat → α) : Deserializer α :=
  fun data result ↦
    if data.length ≠ width then (.invalidArgument, result) else (.ok, ofBits (beNat data))

/-- `serialization.h:196–202`. -/
def Serializer.void : Serializer Unit := ⟨fun _ ↦ .null, none⟩

/-- `serialization.h:206–214`. -/
def Deserializer.void : Deserializer Unit := fun data result ↦
  if data.length ≠ 0 then (.invalidArgument, result) else (.ok, result)

/-- `serialization.h:216–226`. -/
def Serializer.bool : Serializer Bool := .fixed 1 Bool.toNat

/-- `serialization.h:230–243`. A byte that is neither 0 nor 1 is refused. -/
def Deserializer.bool : Deserializer Bool := fun data result ↦
  if data.length ≠ 1 then (.invalidArgument, result)
  else if 1 < beNat data then (.invalidArgument, result)
  else (.ok, beNat data ≠ 0)

/-- `serialization.h:245–255`. -/
def Serializer.int8 : Serializer Int8 := .fixed 1 (·.toUInt8.toNat)

/-- `serialization.h:259–269`. -/
def Deserializer.int8 : Deserializer Int8 := .fixed 1 fun n ↦ (UInt8.ofNat n).toInt8

/-- `serialization.h:271–281`. -/
def Serializer.uint8 : Serializer UInt8 := .fixed 1 UInt8.toNat

/-- `serialization.h:285–295`. -/
def Deserializer.uint8 : Deserializer UInt8 := .fixed 1 UInt8.ofNat

/-- `serialization.h:297–307`. -/
def Serializer.int16 : Serializer Int16 := .fixed 2 (·.toUInt16.toNat)

/-- `serialization.h:311–321`. -/
def Deserializer.int16 : Deserializer Int16 := .fixed 2 fun n ↦ (UInt16.ofNat n).toInt16

/-- `serialization.h:323–333`. -/
def Serializer.uint16 : Serializer UInt16 := .fixed 2 UInt16.toNat

/-- `serialization.h:337–347`. -/
def Deserializer.uint16 : Deserializer UInt16 := .fixed 2 UInt16.ofNat

/-- `serialization.h:349–359`. -/
def Serializer.int32 : Serializer Int32 := .fixed 4 (·.toUInt32.toNat)

/-- `serialization.h:363–373`. -/
def Deserializer.int32 : Deserializer Int32 := .fixed 4 fun n ↦ (UInt32.ofNat n).toInt32

/-- `serialization.h:375–385`. -/
def Serializer.uint32 : Serializer UInt32 := .fixed 4 UInt32.toNat

/-- `serialization.h:389–399`. -/
def Deserializer.uint32 : Deserializer UInt32 := .fixed 4 UInt32.ofNat

/-- `serialization.h:401–411`. -/
def Serializer.int64 : Serializer Int64 := .fixed 8 (·.toUInt64.toNat)

/-- `serialization.h:415–425`. -/
def Deserializer.int64 : Deserializer Int64 := .fixed 8 fun n ↦ (UInt64.ofNat n).toInt64

/-- `serialization.h:427–437`. -/
def Serializer.uint64 : Serializer UInt64 := .fixed 8 UInt64.toNat

/-- `serialization.h:441–451`. -/
def Deserializer.uint64 : Deserializer UInt64 := .fixed 8 UInt64.ofNat

/-- `serialization.h:474–482`. -/
def Serializer.stringView : Serializer (List UInt8) := ⟨.static, none⟩

/-- `serialization.h:485–492`. -/
def Deserializer.stringView : Deserializer (List UInt8) := fun data _ ↦ (.ok, data)

/-- The types with serializers of their own. -/
inductive Scalar
  | void | bool | int8 | uint8 | int16 | uint16 | int32 | uint32 | int64 | uint64 | stringView
  deriving DecidableEq, Repr

/-- The serializers of the basic types. -/
def scalars : Leaves Scalar where
  Val
    | .void => Unit
    | .bool => Bool
    | .int8 => Int8
    | .uint8 => UInt8
    | .int16 => Int16
    | .uint16 => UInt16
    | .int32 => Int32
    | .uint32 => UInt32
    | .int64 => Int64
    | .uint64 => UInt64
    | .stringView => List UInt8
  serializer
    | .void => .void
    | .bool => .bool
    | .int8 => .int8
    | .uint8 => .uint8
    | .int16 => .int16
    | .uint16 => .uint16
    | .int32 => .int32
    | .uint32 => .uint32
    | .int64 => .int64
    | .uint64 => .uint64
    | .stringView => .stringView
  deserializer
    | .void => .void
    | .bool => .bool
    | .int8 => .int8
    | .uint8 => .uint8
    | .int16 => .int16
    | .uint16 => .uint16
    | .int32 => .int32
    | .uint32 => .uint32
    | .int64 => .int64
    | .uint64 => .uint64
    | .stringView => .stringView

end RooTransport.Rpc
