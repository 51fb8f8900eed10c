import RelayBench.Library.CompactProtocol
import RelayBench.Common.Timing

/-! # The thrift crate and the generated code of `zenohbench/src/timing.rs`

The crate is a parameter: its channel, its two compact protocols and their operations, none
where one returns an `Err`. `Documented` says that on what the compact protocol and
`TBufferChannel` are documented to accept, an operation does what they say.
-/
namespace RelayBench.Zenoh
open CompactProtocol

structure ThriftCrate where
  TBufferChannel : Type
  TCompactOutputProtocol : Type
  TCompactInputProtocol : Type
  withCapacity : ℕ → ℕ → TBufferChannel
  setReadableBytes : TBufferChannel → List UInt8 → TBufferChannel
  writeBytes : TBufferChannel → List UInt8
  newOutput : TBufferChannel → TCompactOutputProtocol
  outputChannel : TCompactOutputProtocol → TBufferChannel
  newInput : TBufferChannel → TCompactInputProtocol
  inputChannel : TCompactInputProtocol → TBufferChannel
  writeStructBegin : TCompactOutputProtocol → String → Option TCompactOutputProtocol
  writeStructEnd : TCompactOutputProtocol → Option TCompactOutputProtocol
  writeFieldBegin : TCompactOutputProtocol → Field → Option TCompactOutputProtocol
  writeFieldEnd : TCompactOutputProtocol → Option TCompactOutputProtocol
  writeFieldStop : TCompactOutputProtocol → Option TCompactOutputProtocol
  writeI64 : TCompactOutputProtocol → ℤ → Option TCompactOutputProtocol
  writeString : TCompactOutputProtocol → String → Option TCompactOutputProtocol
  readStructBegin : TCompactInputProtocol → Option TCompactInputProtocol
  readStructEnd : TCompactInputProtocol → Option TCompactInputProtocol
  readFieldBegin : TCompactInputProtocol → Option (Field × TCompactInputProtocol)
  readFieldEnd : TCompactInputProtocol → Option TCompactInputProtocol
  readI64 : TCompactInputProtocol → Option (ℤ × TCompactInputProtocol)
  readString : TCompactInputProtocol → Option (String × TCompactInputProtocol)
  skip : TCompactInputProtocol → TType → Option TCompactInputProtocol

/-! ## The generated code -/

section Generated
variable (T : ThriftCrate)

/-- `write_to_out_protocol` of `Timing`. -/
def writeTiming (t : Timing) (o : T.TCompactOutputProtocol) : Option T.TCompactOutputProtocol := do
  let o ← T.writeStructBegin o "timing"
  let o ← T.writeFieldBegin o ⟨"msgid",.i64,some 1⟩
  let o ← T.writeI64 o t.msgid
  let o ← T.writeFieldEnd o
  let o ← T.writeFieldBegin o ⟨"nanosec",.i64,some 2⟩
  let o ← T.writeI64 o t.nanosec
  let o ← T.writeFieldEnd o
  let o ← T.writeFieldBegin o ⟨"source",.string,some 3⟩
  let o ← T.writeString o t.source
  let o ← T.writeFieldEnd o
  let o ← T.writeFieldStop o
  T.writeStructEnd o

/-- The variables of the loop that reads the fields. -/
structure Fields where
  f1 : Option ℤ
  f2 : Option ℤ
  f3 : Option String
deriving DecidableEq, Repr

/-- The branches of the loop on the id of a field. -/
def readValue (type : TType) (id : ℤ) (fs : Fields) (i : T.TCompactInputProtocol) :
    Option (Fields × T.TCompactInputProtocol) :=
  if id = 1 then (T.readI64 i).map (fun (v,i) => ({ fs with f1 := some v },i))
  else if id = 2 then (T.readI64 i).map (fun (v,i) => ({ fs with f2 := some v },i))
  else if id = 3 then (T.readString i).map (fun (v,i) => ({ fs with f3 := some v },i))
  else (T.skip i type).map (fun i => (fs,i))

/-- One field after its header. -/
def readField (f : Field) (fs : Fields) (i : T.TCompactInputProtocol) :
    Option (Fields × T.TCompactInputProtocol) := do
  let id ← f.id
  let (fs,i) ← readValue T f.type id fs i
  let i ← T.readFieldEnd i
  return (fs,i)

/-- The loop up to the stop field, for at most `fuel` headers. -/
def readFields : ℕ → Fields → T.TCompactInputProtocol → Option (Fields × T.TCompactInputProtocol)
  | 0, _, _ => none
  | fuel + 1, fs, i =>
    match T.readFieldBegin i with
    | none => none
    | some (f,i) =>
      if f.type = .stop then some (fs,i)
      else
        match readField T f fs i with
        | none => none
        | some (fs,i) => readFields fuel fs i

/-- `read_from_in_protocol` of `Timing`. -/
def readTiming (fuel : ℕ) (i : T.TCompactInputProtocol) :
    Option (Timing × T.TCompactInputProtocol) := do
  let i ← T.readStructBegin i
  let (fs,i) ← readFields T fuel ⟨none,none,none⟩ i
  let i ← T.readStructEnd i
  let msgid ← fs.f1
  let nanosec ← fs.f2
  let source ← fs.f3
  return (⟨msgid,nanosec,source⟩,i)

end Generated

/-! ## What is documented of the crate -/

/-- Where the documented operation succeeds the crate's does, with the same outcome. -/
def Follows {A B : Type} (view : A → B) (x : Option A) (y : Option B) : Prop :=
  ∀ b, y = some b → ∃ a, x = some a ∧ view a = b

/-- The documented state of the crate's values. -/
structure View (T : ThriftCrate) where
  channel : T.TBufferChannel → Channel
  output : T.TCompactOutputProtocol → Cursor
  input : T.TCompactInputProtocol → Cursor

def View.value {T : ThriftCrate} (view : View T) {A : Type} (p : A × T.TCompactInputProtocol) :
    A × Cursor := (p.1,view.input p.2)

/-- The header of a field as it is read: without its name. -/
def View.field {T : ThriftCrate} (view : View T) (p : Field × T.TCompactInputProtocol) :
    Field × Cursor := (⟨"",p.1.type,p.1.id⟩,view.input p.2)

structure Documented (T : ThriftCrate) (view : View T) : Prop where
  withCapacity : ∀ r w, view.channel (T.withCapacity r w) = Channel.withCapacity r w
  setReadableBytes : ∀ c bytes,
    view.channel (T.setReadableBytes c bytes) = (view.channel c).setReadableBytes bytes
  writeBytes : ∀ c, T.writeBytes c = (view.channel c).output.bytes
  newOutput : ∀ c, view.output (T.newOutput c) = Cursor.new (view.channel c)
  outputChannel : ∀ o, view.channel (T.outputChannel o) = (view.output o).channel
  newInput : ∀ c, view.input (T.newInput c) = Cursor.new (view.channel c)
  inputChannel : ∀ i, view.channel (T.inputChannel i) = (view.input i).channel
  writeStructBegin : ∀ o name,
    Follows view.output (T.writeStructBegin o name) (some (view.output o).structBegin)
  writeStructEnd : ∀ o, Follows view.output (T.writeStructEnd o) (view.output o).structEnd
  writeFieldBegin : ∀ o f,
    Follows view.output (T.writeFieldBegin o f) ((view.output o).writeFieldBegin f)
  writeFieldEnd : ∀ o, Follows view.output (T.writeFieldEnd o) (some (view.output o))
  writeFieldStop : ∀ o, Follows view.output (T.writeFieldStop o) (view.output o).writeFieldStop
  writeI64 : ∀ o v, InI64 v → Follows view.output (T.writeI64 o v) ((view.output o).writeI64 v)
  writeString : ∀ o s, (utf8 s).length < 2 ^ 32 →
    Follows view.output (T.writeString o s) ((view.output o).writeString s)
  readStructBegin : ∀ i,
    Follows view.input (T.readStructBegin i) (some (view.input i).structBegin)
  readStructEnd : ∀ i, Follows view.input (T.readStructEnd i) (view.input i).structEnd
  readFieldBegin : ∀ i, Follows view.field (T.readFieldBegin i) (view.input i).readFieldBegin
  readFieldEnd : ∀ i, Follows view.input (T.readFieldEnd i) (some (view.input i))
  readI64 : ∀ i, Follows view.value (T.readI64 i) (view.input i).readI64
  readString : ∀ i, Follows view.value (T.readString i) (view.input i).readString

/-- A crate that is exactly what is documented. -/
@[reducible] def documentedCrate : ThriftCrate where
  TBufferChannel := Channel
  TCompactOutputProtocol := Cursor
  TCompactInputProtocol := Cursor
  withCapacity := Channel.withCapacity
  setReadableBytes := Channel.setReadableBytes
  writeBytes c := c.output.bytes
  newOutput := Cursor.new
  outputChannel := Cursor.channel
  newInput := Cursor.new
  inputChannel := Cursor.channel
  writeStructBegin c _ := some c.structBegin
  writeStructEnd := Cursor.structEnd
  writeFieldBegin := Cursor.writeFieldBegin
  writeFieldEnd := some
  writeFieldStop := Cursor.writeFieldStop
  writeI64 := Cursor.writeI64
  writeString := Cursor.writeString
  readStructBegin c := some c.structBegin
  readStructEnd := Cursor.structEnd
  readFieldBegin := Cursor.readFieldBegin
  readFieldEnd := some
  readI64 := Cursor.readI64
  readString := Cursor.readString
  skip _ _ := none

end RelayBench.Zenoh
