import RelayBench.Library.CompactValues

/-! # The thrift crate under `thrift-rs/src/timing.rs`

The crate is a parameter: its compact protocol over a connection, with the operations that the
generated code uses, none where one returns an `Err`. `Documented` says what they do to the bytes
that have arrived and to those that wait to be sent: they follow the compact protocol.
-/
namespace RelayBench.ThriftRsWire
open Readers CompactMessages Varint
variable {α : Type}

inductive ApplicationErrorKind
  | unknown
  | unknownMethod
  | invalidMessageType
  | wrongMethodName
  | badSequenceId
  | missingResult
  | internalError
  | protocolError
  | invalidTransform
  | invalidProtocol
  | unsupportedClientType
deriving DecidableEq, Repr

def ApplicationErrorKind.all : List ApplicationErrorKind :=
  [.unknown,.unknownMethod,.invalidMessageType,.wrongMethodName,.badSequenceId,.missingResult,
    .internalError,.protocolError,.invalidTransform,.invalidProtocol,.unsupportedClientType]

/-- `e.kind as i32`. -/
def ApplicationErrorKind.code (kind : ApplicationErrorKind) : ℕ := all.idxOf kind

/-- A kind that is not known is read as `Unknown`. -/
def ApplicationErrorKind.ofCode (code : ℤ) : ApplicationErrorKind :=
  (all.find? (fun kind => (kind.code : ℤ) = code)).getD .unknown

structure ApplicationError where
  kind : ApplicationErrorKind
  message : String
deriving DecidableEq, Repr

structure Crate where
  In : Type
  Out : Type
  /-- The text of the error for a required field that is missing. -/
  missingText : String → String
  /-- The text of the error for arguments that could not be read. -/
  errorText : In → String
  /-- What is left where the arguments could not be read. -/
  afterError : In → In
  /-- Bytes arrive. -/
  receive : List UInt8 → In → In
  readMessageBegin : Reader In MessageHeader
  readMessageEnd : Reader In Unit
  readStructBegin : Reader In Unit
  readStructEnd : Reader In Unit
  readFieldBegin : Reader In FieldHeader
  readFieldEnd : Reader In Unit
  readI64 : Reader In ℤ
  readString : Reader In String
  skip : TType → Reader In Unit
  /-- `read_application_error_from_in_protocol`. -/
  readApplicationError : Reader In ApplicationError
  writeMessageBegin : MessageHeader → Reader Out Unit
  writeMessageEnd : Reader Out Unit
  writeStructBegin : String → Reader Out Unit
  writeStructEnd : Reader Out Unit
  writeFieldBegin : String → TType → ℤ → Reader Out Unit
  writeFieldEnd : Reader Out Unit
  writeFieldStop : Reader Out Unit
  writeI64 : ℤ → Reader Out Unit
  writeString : String → Reader Out Unit
  /-- `write_application_error_to_out_protocol`, which flushes. -/
  writeApplicationError : ApplicationError → Reader Out (List UInt8)
  /-- What was written since the last flush is sent. -/
  flush : Reader Out (List UInt8)

/-! ## What is documented -/

/-- A field of an application error. -/
def errorField (e : ApplicationError) (h : FieldHeader) :
    Reader Input (ForInStep ApplicationError) :=
  if h.id = some 1 then (fun message => .yield { e with message := message }) <$> readString
  else if h.id = some 2 then
    (fun code => .yield { e with kind := .ofCode code }) <$> readInt 32
  else (fun _ => .yield e) <$> skipValue h.type

def readErrorFields : Reader Input ApplicationError := fun i =>
  untilStop Stops readFieldBegin errorField (i.unread.length + 1)
    ⟨.unknown,"general remote error"⟩ i

def readApplicationError : Reader Input ApplicationError := do
  readStructBegin
  let e ← readErrorFields
  readStructEnd
  return e

def writeError (e : ApplicationError) : Reader Output Unit := do
  Output.structBegin
  Output.fieldBegin .string 1
  Output.put (stringBytes e.message)
  Output.fieldBegin .i32 2
  Output.put (encode (zigzag e.kind.code))
  Output.put [0]
  Output.structEnd

def writeApplicationError (e : ApplicationError) : Reader Output (List UInt8) := do
  writeError e
  Output.flush

structure View (T : Crate) where
  input : T.In → Input
  output : T.Out → Output

/-- An operation on the input does this to its bytes. -/
def Reading {T : Crate} (view : View T) (f : Reader T.In α) (g : Reader Input α) : Prop :=
  Follows view.input (fun _ => True) f g

/-- An operation on the output does this to its bytes. -/
def Writing {T : Crate} (view : View T) (f : Reader T.Out α) (g : Reader Output α) : Prop :=
  Follows view.output (fun _ => True) f g

structure Documented (T : Crate) (view : View T) : Prop where
  receive : ∀ bytes i, view.input (T.receive bytes i) = (view.input i).extend bytes
  readMessageBegin : Reading view T.readMessageBegin readMessageBegin
  readMessageEnd : Reading view T.readMessageEnd (pure ())
  readStructBegin : Reading view T.readStructBegin readStructBegin
  readStructEnd : Reading view T.readStructEnd readStructEnd
  readFieldBegin : Reading view T.readFieldBegin readFieldBegin
  readFieldEnd : Reading view T.readFieldEnd (pure ())
  readI64 : Reading view T.readI64 (readInt 64)
  readString : Reading view T.readString readString
  skip : ∀ type, Reading view (T.skip type) (skipValue type)
  readApplicationError : Reading view T.readApplicationError readApplicationError
  writeMessageBegin : ∀ h, Writing view (T.writeMessageBegin h) (Output.put (messageBegin h))
  writeMessageEnd : Writing view T.writeMessageEnd (pure ())
  writeStructBegin : ∀ name, Writing view (T.writeStructBegin name) Output.structBegin
  writeStructEnd : Writing view T.writeStructEnd Output.structEnd
  writeFieldBegin : ∀ name type id, type ≠ .bool →
    Writing view (T.writeFieldBegin name type id) (Output.fieldBegin type id)
  writeFieldEnd : Writing view T.writeFieldEnd (pure ())
  writeFieldStop : Writing view T.writeFieldStop (Output.put [0])
  writeI64 : ∀ v, Writing view (T.writeI64 v) (Output.put (encode (zigzag v)))
  writeString : ∀ s, Writing view (T.writeString s) (Output.put (stringBytes s))
  writeApplicationError : ∀ e,
    Writing view (T.writeApplicationError e) (writeApplicationError e)
  flush : Writing view T.flush Output.flush

/-! ## A crate that is exactly what is documented -/

@[reducible] def documentedCrate : Crate where
  In := Input
  Out := Output
  missingText name := "missing required field " ++ name
  errorText _ := ""
  afterError := id
  receive bytes i := i.extend bytes
  readMessageBegin := CompactMessages.readMessageBegin
  readMessageEnd := pure ()
  readStructBegin := CompactMessages.readStructBegin
  readStructEnd := CompactMessages.readStructEnd
  readFieldBegin := CompactMessages.readFieldBegin
  readFieldEnd := pure ()
  readI64 := readInt 64
  readString := CompactMessages.readString
  skip := skipValue
  readApplicationError := ThriftRsWire.readApplicationError
  writeMessageBegin h := Output.put (messageBegin h)
  writeMessageEnd := pure ()
  writeStructBegin _ := Output.structBegin
  writeStructEnd := Output.structEnd
  writeFieldBegin _ type id := Output.fieldBegin type id
  writeFieldEnd := pure ()
  writeFieldStop := Output.put [0]
  writeI64 v := Output.put (encode (zigzag v))
  writeString s := Output.put (stringBytes s)
  writeApplicationError := ThriftRsWire.writeApplicationError
  flush := Output.flush

/-- Its states are what they are documented to be. -/
def documentedView : View documentedCrate := ⟨id,id⟩

theorem reading_self (f : Reader Input α) : Reading documentedView f f :=
  Follows.self (R := fun _ _ => True) (fun _ _ _ _ => trivial) (fun _ _ _ _ => trivial)

theorem writing_self (f : Reader Output α) : Writing documentedView f f :=
  Follows.self (R := fun _ _ => True) (fun _ _ _ _ => trivial) (fun _ _ _ _ => trivial)

theorem documentedCrate_documented : Documented documentedCrate documentedView where
  receive _ _ := rfl
  readMessageBegin := reading_self _
  readMessageEnd := reading_self _
  readStructBegin := reading_self _
  readStructEnd := reading_self _
  readFieldBegin := reading_self _
  readFieldEnd := reading_self _
  readI64 := reading_self _
  readString := reading_self _
  skip _ := reading_self _
  readApplicationError := reading_self _
  writeMessageBegin _ := writing_self _
  writeMessageEnd := writing_self _
  writeStructBegin _ := writing_self _
  writeStructEnd := writing_self _
  writeFieldBegin _ _ _ _ := writing_self _
  writeFieldEnd := writing_self _
  writeFieldStop := writing_self _
  writeI64 _ := writing_self _
  writeString _ := writing_self _
  writeApplicationError _ := writing_self _
  flush := writing_self _

end RelayBench.ThriftRsWire
