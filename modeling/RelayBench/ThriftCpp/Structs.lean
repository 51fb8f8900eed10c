import RelayBench.Common.Timing
import RelayBench.ThriftCpp.Protocol

/-! # The structs of `gen-cpp/timing_types.cpp` and `gen-cpp/Bench.cpp`

No field is required. A reader takes the fields of its struct in any order, the last of several
with one id and type, and skips those with an unknown id or an unexpected type. What it does
not find keeps its value.
-/
namespace RelayBench.ThriftWire
open Readers BinaryProtocol

/-! ## The generated code -/

/-- `_timing__isset`. -/
structure TimingIsset where
  msgid : Bool
  nanosec : Bool
  source : Bool
deriving DecidableEq, Repr

/-- The class `timing`, whose `std::string` is of bytes. -/
structure WireTiming where
  msgid : ℤ
  nanosec : ℤ
  source : List UInt8
  isset : TimingIsset
deriving DecidableEq, Repr

/-- A default-constructed `timing`. -/
def WireTiming.new : WireTiming := ⟨0,0,[],⟨false,false,false⟩⟩

structure BenchArgs where
  arg : WireTiming
  issetArg : Bool
deriving DecidableEq, Repr

def BenchArgs.new : BenchArgs := ⟨.new,false⟩

structure BenchResult where
  success : ℤ
  issetSuccess : Bool
deriving DecidableEq, Repr

def BenchResult.new : BenchResult := ⟨0,false⟩

section Generated
variable (T : TProtocol)

section Struct
variable {α : Type} (field : α → TType → ℤ → Reader T.In α) (fuel : ℕ) (a : α)

def readBody : Reader T.In α := do
  T.readStructBegin
  let a ← readFields T.readFieldBegin T.readFieldEnd field fuel a
  T.readStructEnd
  return a

/-- The loop over the fields of a struct, inside a recursion tracker. -/
def readStruct : Reader T.In α := do
  T.enterInput
  let a ← readBody T field fuel a
  T.leaveInput
  return a

end Struct

def timingField (t : WireTiming) (ftype : TType) (fid : ℤ) : Reader T.In WireTiming :=
  if fid = 1 then
    if ftype = .i64 then do
      let v ← T.readI64
      return { t with msgid := v, isset := { t.isset with msgid := true } }
    else do
      T.skip ftype
      return t
  else if fid = 2 then
    if ftype = .i64 then do
      let v ← T.readI64
      return { t with nanosec := v, isset := { t.isset with nanosec := true } }
    else do
      T.skip ftype
      return t
  else if fid = 3 then
    if ftype = .string then do
      let v ← T.readString
      return { t with source := v, isset := { t.isset with source := true } }
    else do
      T.skip ftype
      return t
  else do
    T.skip ftype
    return t

/-- `timing::read`. -/
def timingRead (fuel : ℕ) (t : WireTiming) : Reader T.In WireTiming :=
  readStruct T (timingField T) fuel t

def writeField (name : String) (type : TType) (id : ℤ) (value : Reader T.Out Unit) :
    Reader T.Out Unit := do
  T.writeFieldBegin name type id
  value
  T.writeFieldEnd

def writeBody (name : String) (fields : Reader T.Out Unit) : Reader T.Out Unit := do
  T.writeStructBegin name
  fields
  T.writeFieldStop
  T.writeStructEnd

/-- The fields of a struct, inside a recursion tracker. -/
def writeStruct (name : String) (fields : Reader T.Out Unit) : Reader T.Out Unit := do
  T.enterOutput
  writeBody T name fields
  T.leaveOutput

/-- `timing::write`. -/
def timingWrite (t : WireTiming) : Reader T.Out Unit :=
  writeStruct T "timing" do
    writeField T "msgid" .i64 1 (T.writeI64 t.msgid)
    writeField T "nanosec" .i64 2 (T.writeI64 t.nanosec)
    writeField T "source" .string 3 (T.writeString t.source)

def benchArgsField (fuel : ℕ) (args : BenchArgs) (ftype : TType) (fid : ℤ) :
    Reader T.In BenchArgs :=
  if fid = 1 then
    if ftype = .struct then do
      let arg ← timingRead T fuel args.arg
      return ⟨arg,true⟩
    else do
      T.skip ftype
      return args
  else do
    T.skip ftype
    return args

/-- `Bench_bench_args::read`. -/
def benchArgsRead (fuel : ℕ) (args : BenchArgs) : Reader T.In BenchArgs :=
  readStruct T (benchArgsField T fuel) fuel args

/-- `write` of `Bench_bench_args` and of `Bench_bench_pargs`, which differ in the name. -/
def argsWrite (name : String) (arg : WireTiming) : Reader T.Out Unit :=
  writeStruct T name (writeField T "arg" .struct 1 (timingWrite T arg))

def benchArgsWrite (args : BenchArgs) : Reader T.Out Unit :=
  argsWrite T "Bench_bench_args" args.arg

def benchPargsWrite (arg : WireTiming) : Reader T.Out Unit := argsWrite T "Bench_bench_pargs" arg

def benchResultField (result : BenchResult) (ftype : TType) (fid : ℤ) :
    Reader T.In BenchResult :=
  if fid = 0 then
    if ftype = .i64 then do
      let v ← T.readI64
      return ⟨v,true⟩
    else do
      T.skip ftype
      return result
  else do
    T.skip ftype
    return result

/-- `read` of `Bench_bench_result` and of `Bench_bench_presult`. -/
def benchResultRead (fuel : ℕ) (result : BenchResult) : Reader T.In BenchResult :=
  readStruct T (benchResultField T) fuel result

/-- `Bench_bench_result::write`, without a recursion tracker. -/
def benchResultWrite (result : BenchResult) : Reader T.Out Unit :=
  writeBody T "Bench_bench_result"
    (if result.issetSuccess then writeField T "success" .i64 0 (T.writeI64 result.success)
    else pure ())

end Generated

/-! ## The library is only used through what it does to the bytes -/

section Documented
variable {T : TProtocol} {view : View T} {α : Type}

theorem readStruct_reading (hdoc : Documented T view) {field : α → TType → ℤ → Reader T.In α}
    {field' : α → TType → ℤ → Reader Input α}
    (hfield : ∀ a type id, Reading view (field a type id) (field' a type id)) (fuel : ℕ) (a : α) :
    Reading view (readStruct T field fuel a)
      (readStruct (documentedProtocol T.maxMessageSize) field' fuel a) := by
  refine hdoc.enterInput.bind (fun _ => Follows.bind ?_ (fun a => hdoc.leaveInput.bind
    (fun _ => .pure a)))
  refine hdoc.readStructBegin.bind (fun _ => ?_)
  exact (readFields_follows hdoc.readFieldBegin hdoc.readFieldEnd hfield fuel a).bind
    (fun a => hdoc.readStructEnd.bind (fun _ => .pure a))

/-- A field that is read into a member, or skipped. -/
theorem known_reading {β : Type} (hdoc : Documented T view) {f : Reader T.In β} {g : Reader Input β}
    (hf : Reading view f g) (type ftype : TType) (set : β → α) (a : α) :
    Reading view
      (if ftype = type then do let v ← f; return set v else do T.skip ftype; return a)
      (if ftype = type then do let v ← g; return set v else do skipValue ftype; return a) := by
  split
  · exact hf.bind (fun v => .pure (set v))
  · exact (hdoc.skip ftype).bind (fun _ => .pure a)

theorem timingField_reading (hdoc : Documented T view) (t : WireTiming) (ftype : TType) (fid : ℤ) :
    Reading view (timingField T t ftype fid)
      (timingField (documentedProtocol T.maxMessageSize) t ftype fid) := by
  unfold timingField
  split
  · exact known_reading hdoc hdoc.readI64 .i64 ftype _ t
  · split
    · exact known_reading hdoc hdoc.readI64 .i64 ftype _ t
    · split
      · exact known_reading hdoc hdoc.readString .string ftype _ t
      · exact (hdoc.skip ftype).bind (fun _ => .pure t)

theorem timingRead_reading (hdoc : Documented T view) (fuel : ℕ) (t : WireTiming) :
    Reading view (timingRead T fuel t)
      (timingRead (documentedProtocol T.maxMessageSize) fuel t) :=
  readStruct_reading hdoc (timingField_reading hdoc) fuel t

theorem benchArgsRead_reading (hdoc : Documented T view) (fuel : ℕ) (args : BenchArgs) :
    Reading view (benchArgsRead T fuel args)
      (benchArgsRead (documentedProtocol T.maxMessageSize) fuel args) := by
  refine readStruct_reading hdoc (fun args ftype fid => ?_) fuel args
  unfold benchArgsField
  split
  · exact known_reading hdoc (timingRead_reading hdoc fuel args.arg) .struct ftype _ args
  · exact (hdoc.skip ftype).bind (fun _ => .pure args)

theorem benchResultRead_reading (hdoc : Documented T view) (fuel : ℕ) (result : BenchResult) :
    Reading view (benchResultRead T fuel result)
      (benchResultRead (documentedProtocol T.maxMessageSize) fuel result) := by
  refine readStruct_reading hdoc (fun result ftype fid => ?_) fuel result
  unfold benchResultField
  split
  · exact known_reading hdoc hdoc.readI64 .i64 ftype _ result
  · exact (hdoc.skip ftype).bind (fun _ => .pure result)

theorem writeField_writing (hdoc : Documented T view) {name : String} {type : TType} {id : ℤ}
    {value : Reader T.Out Unit} {value' : Reader Output Unit} (h : Writing view value value') :
    Writing view (writeField T name type id value)
      (writeField (documentedProtocol T.maxMessageSize) name type id value') :=
  (hdoc.writeFieldBegin _ _ _).bind (fun _ => h.bind (fun _ => hdoc.writeFieldEnd))

theorem writeBody_writing (hdoc : Documented T view) {name : String} {fields : Reader T.Out Unit}
    {fields' : Reader Output Unit} (h : Writing view fields fields') :
    Writing view (writeBody T name fields)
      (writeBody (documentedProtocol T.maxMessageSize) name fields') :=
  (hdoc.writeStructBegin _).bind (fun _ => h.bind (fun _ =>
    hdoc.writeFieldStop.bind (fun _ => hdoc.writeStructEnd)))

theorem writeStruct_writing (hdoc : Documented T view) {name : String} {fields : Reader T.Out Unit}
    {fields' : Reader Output Unit} (h : Writing view fields fields') :
    Writing view (writeStruct T name fields)
      (writeStruct (documentedProtocol T.maxMessageSize) name fields') :=
  hdoc.enterOutput.bind (fun _ => (writeBody_writing hdoc h).bind (fun _ => hdoc.leaveOutput))

theorem timingWrite_writing (hdoc : Documented T view) (t : WireTiming) :
    Writing view (timingWrite T t) (timingWrite (documentedProtocol T.maxMessageSize) t) :=
  writeStruct_writing hdoc ((writeField_writing hdoc (hdoc.writeI64 _)).bind (fun _ =>
    (writeField_writing hdoc (hdoc.writeI64 _)).bind (fun _ =>
    writeField_writing hdoc (hdoc.writeString _))))

theorem argsWrite_writing (hdoc : Documented T view) (name : String) (arg : WireTiming) :
    Writing view (argsWrite T name arg)
      (argsWrite (documentedProtocol T.maxMessageSize) name arg) :=
  writeStruct_writing hdoc (writeField_writing hdoc (timingWrite_writing hdoc arg))

theorem benchResultWrite_writing (hdoc : Documented T view) (result : BenchResult) :
    Writing view (benchResultWrite T result)
      (benchResultWrite (documentedProtocol T.maxMessageSize) result) := by
  refine writeBody_writing hdoc ?_
  split
  · exact writeField_writing hdoc (hdoc.writeI64 _)
  · exact .pure ()

end Documented

end RelayBench.ThriftWire
