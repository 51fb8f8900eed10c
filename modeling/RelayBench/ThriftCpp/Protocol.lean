import RelayBench.Library.BinaryValues

/-! # The thrift library under `thrift-bench/gen-cpp`

The library is a parameter: its protocol over a connection, with the operations that the
generated code uses, none where one throws. `Documented` says what they do on the bytes that
have arrived and on those that wait to be flushed: they follow the binary protocol, as long as
no more bytes wait to be read than the largest message may have.
-/
namespace RelayBench.ThriftWire
open Readers BinaryProtocol

structure TApplicationException where
  type : ℤ
  message : List UInt8
deriving DecidableEq, Repr

structure TProtocol where
  In : Type
  Out : Type
  maxMessageSize : ℕ
  /-- `what()` of an application exception. -/
  what : TApplicationException → List UInt8
  /-- `what()` of the library's own exceptions. -/
  libraryWhat : List UInt8
  /-- Bytes arrive. -/
  receive : List UInt8 → In → In
  readMessageBegin : Reader In MessageHeader
  readMessageEnd : Reader In Unit
  readStructBegin : Reader In Unit
  readStructEnd : Reader In Unit
  readFieldBegin : Reader In (TType × ℤ)
  readFieldEnd : Reader In Unit
  readI64 : Reader In ℤ
  readString : Reader In (List UInt8)
  skip : TType → Reader In Unit
  readException : Reader In TApplicationException
  readEnd : Reader In Unit
  enterInput : Reader In Unit
  leaveInput : Reader In Unit
  writeMessageBegin : MessageHeader → Reader Out Unit
  writeMessageEnd : Reader Out Unit
  writeStructBegin : String → Reader Out Unit
  writeStructEnd : Reader Out Unit
  writeFieldBegin : String → TType → ℤ → Reader Out Unit
  writeFieldEnd : Reader Out Unit
  writeFieldStop : Reader Out Unit
  writeI64 : ℤ → Reader Out Unit
  writeString : List UInt8 → Reader Out Unit
  writeException : TApplicationException → Reader Out Unit
  writeEnd : Reader Out Unit
  enterOutput : Reader Out Unit
  leaveOutput : Reader Out Unit
  /-- What was written since the last flush is sent. -/
  flush : Reader Out (List UInt8)

/-! ## What is documented -/

/-- The fields of an application exception. -/
def exceptionField (x : TApplicationException) (type : TType) (id : ℤ) :
    Reader Input TApplicationException :=
  if id = 1 ∧ type = .string then (fun message => { x with message := message }) <$> readString
  else if id = 2 ∧ type = .i32 then (fun code => { x with type := code }) <$> readInt 4
  else (fun _ => x) <$> skipValue type

def readException : Reader Input TApplicationException := fun i =>
  readFields readFieldBegin (pure ()) exceptionField (i.unread.length + 1) ⟨0,[]⟩ i

def exceptionFields (x : TApplicationException) : List Field :=
  [⟨.string,1,writeInt 4 x.message.length ++ x.message⟩,⟨.i32,2,writeInt 4 x.type⟩]

def writeException (x : TApplicationException) : Reader Output Unit :=
  if x.message.length < 2 ^ 31 then Output.put (structBytes (exceptionFields x)) else failure

structure View (T : TProtocol) where
  input : T.In → Input
  output : T.Out → Output

/-- No more than a message of the largest size waits to be read. -/
def Small (T : TProtocol) (i : Input) : Prop := i.unread.length ≤ T.maxMessageSize

/-- An operation on the input does this to its bytes. -/
def Reading {T : TProtocol} (view : View T) {α : Type} (f : Reader T.In α) (g : Reader Input α) :
    Prop := Follows view.input (Small T) f g

/-- An operation on the output does this to its bytes. -/
def Writing {T : TProtocol} (view : View T) {α : Type} (f : Reader T.Out α) (g : Reader Output α) :
    Prop := Follows view.output (fun _ => True) f g

structure Documented (T : TProtocol) (view : View T) : Prop where
  receive : ∀ bytes i, view.input (T.receive bytes i) = (view.input i).extend bytes
  readMessageBegin : Reading view T.readMessageBegin readMessageBegin
  readMessageEnd : Reading view T.readMessageEnd (pure ())
  readStructBegin : Reading view T.readStructBegin (pure ())
  readStructEnd : Reading view T.readStructEnd (pure ())
  readFieldBegin : Reading view T.readFieldBegin readFieldBegin
  readFieldEnd : Reading view T.readFieldEnd (pure ())
  readI64 : Reading view T.readI64 (readInt 8)
  readString : Reading view T.readString readString
  skip : ∀ type, Reading view (T.skip type) (skipValue type)
  readException : Reading view T.readException readException
  readEnd : Reading view T.readEnd (pure ())
  enterInput : Reading view T.enterInput enter
  leaveInput : Reading view T.leaveInput leave
  writeMessageBegin : ∀ h, h.name.length < 2 ^ 31 →
    Writing view (T.writeMessageBegin h) (Output.put (messageBegin h))
  writeMessageEnd : Writing view T.writeMessageEnd (pure ())
  writeStructBegin : ∀ name, Writing view (T.writeStructBegin name) (pure ())
  writeStructEnd : Writing view T.writeStructEnd (pure ())
  writeFieldBegin : ∀ name type id,
    Writing view (T.writeFieldBegin name type id) (Output.put (fieldBegin type id))
  writeFieldEnd : Writing view T.writeFieldEnd (pure ())
  writeFieldStop : Writing view T.writeFieldStop (Output.put [0])
  writeI64 : ∀ v, Writing view (T.writeI64 v) (Output.put (writeInt 8 v))
  writeString : ∀ bytes, Writing view (T.writeString bytes) (Output.putString bytes)
  writeException : ∀ x, Writing view (T.writeException x) (writeException x)
  writeEnd : Writing view T.writeEnd (pure ())
  enterOutput : Writing view T.enterOutput Output.enter
  leaveOutput : Writing view T.leaveOutput Output.leave
  flush : Writing view T.flush Output.flush

/-! ## A library that is exactly what is documented -/

@[reducible] def documentedProtocol (maxMessageSize : ℕ) : TProtocol where
  In := Input
  Out := Output
  maxMessageSize := maxMessageSize
  what := TApplicationException.message
  libraryWhat := []
  receive bytes i := i.extend bytes
  readMessageBegin := BinaryProtocol.readMessageBegin
  readMessageEnd := pure ()
  readStructBegin := pure ()
  readStructEnd := pure ()
  readFieldBegin := BinaryProtocol.readFieldBegin
  readFieldEnd := pure ()
  readI64 := readInt 8
  readString := BinaryProtocol.readString
  skip := skipValue
  readException := ThriftWire.readException
  readEnd := pure ()
  enterInput := enter
  leaveInput := leave
  writeMessageBegin h := Output.put (messageBegin h)
  writeMessageEnd := pure ()
  writeStructBegin _ := pure ()
  writeStructEnd := pure ()
  writeFieldBegin _ type id := Output.put (fieldBegin type id)
  writeFieldEnd := pure ()
  writeFieldStop := Output.put [0]
  writeI64 v := Output.put (writeInt 8 v)
  writeString := Output.putString
  writeException := ThriftWire.writeException
  writeEnd := pure ()
  enterOutput := Output.enter
  leaveOutput := Output.leave
  flush := Output.flush

/-- Its states are what they are documented to be. -/
def documentedView (maxMessageSize : ℕ) : View (documentedProtocol maxMessageSize) := ⟨id,id⟩

variable {α : Type} {maxMessageSize : ℕ}

theorem exceptionField_local (x : TApplicationException) (type : TType) (id : ℤ) :
    Local Input.extend (exceptionField x type id) := by
  unfold exceptionField
  split
  · exact readString_local.map _
  · split
    · exact (readInt_local 4).map _
    · exact (skipValue_local type).map _

theorem exceptionField_after (x : TApplicationException) (type : TType) (id : ℤ) :
    Moves After (exceptionField x type id) := by
  unfold exceptionField
  split
  · exact readString_after.map _
  · split
    · exact (readInt_after 4).map _
    · exact (skipValue_after type).map _

theorem readException_after : Moves After readException := by
  intro i x t h
  exact readFields_moves readFieldBegin_after (.pure ()) exceptionField_after
    (i.unread.length + 1) ⟨0,[]⟩ i x t h

theorem reading_self {f : Reader Input α} (h : Moves After f) :
    Reading (documentedView maxMessageSize) f f := by
  refine Follows.self (R := After) (fun s t hst hs => ?_) h
  exact hst.length_le.trans hs

theorem writing_self (f : Reader Output α) : Writing (documentedView maxMessageSize) f f :=
  Follows.self (R := fun _ _ => True) (fun _ _ _ _ => trivial) (fun _ _ _ _ => trivial)

theorem documentedProtocol_documented (maxMessageSize : ℕ) :
    Documented (documentedProtocol maxMessageSize) (documentedView maxMessageSize) where
  receive _ _ := rfl
  readMessageBegin := reading_self readMessageBegin_after
  readMessageEnd := reading_self (.pure ())
  readStructBegin := reading_self (.pure ())
  readStructEnd := reading_self (.pure ())
  readFieldBegin := reading_self readFieldBegin_after
  readFieldEnd := reading_self (.pure ())
  readI64 := reading_self (readInt_after 8)
  readString := reading_self readString_after
  skip type := reading_self (skipValue_after type)
  readException := reading_self readException_after
  readEnd := reading_self (.pure ())
  enterInput := reading_self enter_after
  leaveInput := reading_self leave_after
  writeMessageBegin _ _ := writing_self _
  writeMessageEnd := writing_self _
  writeStructBegin _ := writing_self _
  writeStructEnd := writing_self _
  writeFieldBegin _ _ _ := writing_self _
  writeFieldEnd := writing_self _
  writeFieldStop := writing_self _
  writeI64 _ := writing_self _
  writeString _ := writing_self _
  writeException _ := writing_self _
  writeEnd := writing_self _
  enterOutput := writing_self _
  leaveOutput := writing_self _
  flush := writing_self _

end RelayBench.ThriftWire
