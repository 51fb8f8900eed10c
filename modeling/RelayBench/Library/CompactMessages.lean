import RelayBench.Library.CompactProtocol
import RelayBench.Library.Readers

/-! # The compact protocol of messages over a stream

Integers are varints. The header of a field has its type and how far its id is from that of the
last field, or the id itself; a Boolean field is its header only. What has to be remembered
between two operations is the context. `skip` goes past any value, nested no deeper than the limit.
-/
namespace RelayBench.CompactMessages
open Readers Varint
open CompactProtocol (utf8)

/-! ## Types -/

inductive TType
  | stop
  | bool
  | i8
  | i16
  | i32
  | i64
  | double
  | string
  | list
  | set
  | map
  | struct
deriving DecidableEq, Repr

/-- The code of a type; in the header of a field a Boolean has a second one, 2 for `false`. -/
def TType.code : TType → ℕ
  | .stop => 0
  | .bool => 1
  | .i8 => 3
  | .i16 => 4
  | .i32 => 5
  | .i64 => 6
  | .double => 7
  | .string => 8
  | .list => 9
  | .set => 10
  | .map => 11
  | .struct => 12

def TType.ofCode (code : ℕ) : Option TType :=
  [TType.stop,.bool,.i8,.i16,.i32,.i64,.double,.string,.list,.set,.map,.struct].find?
    (fun type => type.code = code)

inductive TMessageType
  | call
  | reply
  | exception
  | oneWay
deriving DecidableEq, Repr

def TMessageType.code : TMessageType → ℕ
  | .call => 1
  | .reply => 2
  | .exception => 3
  | .oneWay => 4

def TMessageType.ofCode (code : ℕ) : Option TMessageType :=
  [TMessageType.call,.reply,.exception,.oneWay].find? (fun type => type.code = code)

structure MessageHeader where
  name : String
  type : TMessageType
  seqid : ℤ
deriving DecidableEq, Repr

/-- The header of a field; the stop has no id. -/
structure FieldHeader where
  type : TType
  id : Option ℤ
deriving DecidableEq, Repr

/-- The header that ends a struct. -/
def Stops (h : FieldHeader) : Prop := h.type = .stop

instance : DecidablePred Stops := fun h => inferInstanceAs (Decidable (h.type = .stop))

/-! ## Reading -/

/-- The id of the last field, those of the structs around, and the value of a Boolean field whose
header was read. -/
structure Context where
  lastField : ℤ
  saved : List ℤ
  bool : Option Bool
deriving DecidableEq, Repr

/-- The bytes that have arrived. -/
structure Input where
  unread : List UInt8
  context : Context
deriving DecidableEq, Repr

def Input.extend (i : Input) (bytes : List UInt8) : Input := { i with unread := i.unread ++ bytes }

def take (k : ℕ) : Reader Input (List UInt8) := fun i =>
  if k ≤ i.unread.length then some (i.unread.take k,{ i with unread := i.unread.drop k }) else none

def getContext : Reader Input Context := fun i => some (i.context,i)

def setContext (c : Context) : Reader Input Unit := fun i => some ((),{ i with context := c })

def readByte : Reader Input UInt8 := (fun bytes => bytes.headD 0) <$> take 1

/-- A number of this many bits, in as many bytes as they need at most. -/
def readVarint (bits : ℕ) : Reader Input ℕ := fun i =>
  match decode i.unread with
  | none => none
  | some (n,rest) =>
    if n < 2 ^ bits ∧ i.unread.length ≤ rest.length + (bits + 6) / 7 then
      some (n,{ i with unread := rest })
    else none

def readInt (bits : ℕ) : Reader Input ℤ := unzigzag <$> readVarint bits

def readString : Reader Input String := do
  let n ← readVarint 32
  let bytes ← take n
  match String.fromUTF8? ⟨bytes.toArray⟩ with
  | none => failure
  | some s => return s

def readStructBegin : Reader Input Unit := do
  let c ← getContext
  setContext { c with lastField := 0, saved := c.lastField :: c.saved }

def readStructEnd : Reader Input Unit := do
  let c ← getContext
  match c.saved with
  | [] => failure
  | id :: ids => setContext { c with lastField := id, saved := ids }

/-- The type in the header of a field. -/
def readFieldType (code : ℕ) : Reader Input TType := do
  let c ← getContext
  if code = 1 then
    setContext { c with bool := some true }
    return .bool
  else if code = 2 then
    setContext { c with bool := some false }
    return .bool
  else
    match TType.ofCode code with
    | none => failure
    | some type => return type

/-- The id after the header of a field; the sum is an `i16`. -/
def readFieldId (delta : ℕ) : Reader Input ℤ :=
  if delta ≠ 0 then do
    let c ← getContext
    let id := (c.lastField + delta).bmod (2 ^ 16)
    setContext { c with lastField := id }
    return id
  else do
    let id ← readInt 16
    let c ← getContext
    setContext { c with lastField := id }
    return id

def readFieldBegin : Reader Input FieldHeader := do
  let b ← readByte
  let type ← readFieldType (b.toNat % 16)
  if type = .stop then return ⟨.stop,none⟩
  else
    let id ← readFieldId (b.toNat / 16)
    return ⟨type,some id⟩

/-- The Boolean of the header that was read, or one in a byte of its own. -/
def readBool : Reader Input Bool := do
  let c ← getContext
  match c.bool with
  | some b =>
    setContext { c with bool := none }
    return b
  | none =>
    let b ← readByte
    if b = 1 then return true
    else if b = 2 then return false
    else failure

/-- The type and the number of the elements of a list or a set. -/
def readElements : Reader Input (TType × ℕ) := do
  let b ← readByte
  match TType.ofCode (b.toNat % 16) with
  | none => failure
  | some type =>
    if b.toNat / 16 ≠ 15 then return (type,b.toNat / 16)
    else
      let n ← readVarint 32
      return (type,((n : ℤ).bmod (2 ^ 32)).toNat)

/-- The types of the keys and values of a map and their number; an empty map has no types. -/
def readEntries : Reader Input (Option (TType × TType) × ℕ) := do
  let n ← readVarint 32
  if n = 0 then return (none,0)
  else
    let b ← readByte
    match TType.ofCode (b.toNat / 16), TType.ofCode (b.toNat % 16) with
    | some key, some value => return (some (key,value),((n : ℤ).bmod (2 ^ 32)).toNat)
    | _, _ => failure

/-- A header begins with the id of the protocol and its version. -/
def readMessageBegin : Reader Input MessageHeader := do
  let id ← readByte
  if id ≠ 0x82 then failure
  else
    let b ← readByte
    if b.toNat % 32 ≠ 1 then failure
    else
      match TMessageType.ofCode (b.toNat / 32) with
      | none => failure
      | some type =>
        let seqid ← readVarint 32
        let name ← readString
        let c ← getContext
        setContext { c with lastField := 0 }
        return ⟨name,type,(seqid : ℤ).bmod (2 ^ 32)⟩

/-- Go past a value of this type with this much room for nesting. -/
def skip : ℕ → TType → Reader Input Unit
  | 0, _ => failure
  | _ + 1, .bool => readBool >>= fun _ => pure ()
  | _ + 1, .i8 => readByte >>= fun _ => pure ()
  | _ + 1, .i16 => readInt 16 >>= fun _ => pure ()
  | _ + 1, .i32 => readInt 32 >>= fun _ => pure ()
  | _ + 1, .i64 => readInt 64 >>= fun _ => pure ()
  | _ + 1, .double => take 8 >>= fun _ => pure ()
  | _ + 1, .string => readString >>= fun _ => pure ()
  | room + 1, .list => do
    let (type,n) ← readElements
    times (skip room type) n
  | room + 1, .set => do
    let (type,n) ← readElements
    times (skip room type) n
  | room + 1, .map => do
    let (types,n) ← readEntries
    match types with
    | none => return ()
    | some (key,value) => times (skip room key >>= fun _ => skip room value) n
  | room + 1, .struct => do
    readStructBegin
    (fun i => untilStop Stops readFieldBegin (fun _ h => ForInStep.yield <$> skip room h.type)
      (i.unread.length + 1) () i)
    readStructEnd
  | _ + 1, .stop => failure

def skipLimit : ℕ := 64

def skipValue (type : TType) : Reader Input Unit := skip skipLimit type

/-! ## Writing -/

/-- The bytes that were written and not yet sent. -/
structure Output where
  pending : List UInt8
  lastField : ℤ
  saved : List ℤ
deriving DecidableEq, Repr

/-- A number of an `i32` as one of 32 bits. -/
def unsigned (v : ℤ) : ℕ := (v % 2 ^ 32).toNat

def stringBytes (s : String) : List UInt8 := encode ((utf8 s).length % 2 ^ 32) ++ utf8 s

/-- The header of a message. -/
def messageBegin (h : MessageHeader) : List UInt8 :=
  [0x82,UInt8.ofNat (h.type.code * 32 + 1)] ++ (encode (unsigned h.seqid) ++ stringBytes h.name)

namespace Output

def put (bytes : List UInt8) : Reader Output Unit := fun o =>
  some ((),{ o with pending := o.pending ++ bytes })

def structBegin : Reader Output Unit := fun o =>
  some ((),{ o with lastField := 0, saved := o.lastField :: o.saved })

def structEnd : Reader Output Unit := fun o =>
  match o.saved with
  | [] => none
  | id :: ids => some ((),{ o with lastField := id, saved := ids })

/-- The header of a field that is no Boolean. -/
def fieldBegin (type : TType) (id : ℤ) : Reader Output Unit := fun o =>
  let bytes := if o.lastField < id ∧ id < o.lastField + 15 then
      [UInt8.ofNat ((id - o.lastField).toNat * 16 + type.code)]
    else UInt8.ofNat type.code :: encode (zigzag id)
  some ((),{ o with pending := o.pending ++ bytes, lastField := id })

def flush : Reader Output (List UInt8) := fun o => some (o.pending,{ o with pending := [] })

end Output

end RelayBench.CompactMessages
