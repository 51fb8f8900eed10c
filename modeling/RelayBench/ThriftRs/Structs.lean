import RelayBench.Common.Timing
import RelayBench.ThriftRs.Crate

/-! # The structs of `thrift-rs/src/timing.rs`

A reader takes the fields of its struct in any order, the last of several with one id, and skips
those with an unknown id; the type of a field with a known id is not looked at. The members of
`Timing` are required, and so is the argument: where one is missing the reader returns an error
with its name, an inner reader from the middle of the struct around it.
-/
namespace RelayBench.ThriftRsWire
open Readers CompactMessages Varint

section Generated
variable (T : Crate)

/-! ## Reading -/

/-- The variables of the loop over the fields of a `Timing`. -/
structure TimingFields where
  f1 : Option ℤ
  f2 : Option ℤ
  f3 : Option String
deriving DecidableEq, Repr

/-- `verify_required_field_exists` for every member: the name of the first that is missing. -/
def TimingFields.timing (fs : TimingFields) : Except String Timing :=
  match fs.f1 with
  | none => .error "Timing.msgid"
  | some msgid =>
    match fs.f2 with
    | none => .error "Timing.nanosec"
    | some nanosec =>
      match fs.f3 with
      | none => .error "Timing.source"
      | some source => .ok ⟨msgid,nanosec,source⟩

def timingValue (fs : TimingFields) (type : TType) (id : ℤ) : Reader T.In TimingFields :=
  if id = 1 then (fun v => { fs with f1 := some v }) <$> T.readI64
  else if id = 2 then (fun v => { fs with f2 := some v }) <$> T.readI64
  else if id = 3 then (fun v => { fs with f3 := some v }) <$> T.readString
  else (fun _ => fs) <$> T.skip type

/-- One turn of a loop over fields, for a struct whose fields do not fail. -/
def fieldTurn {α : Type} (value : α → TType → ℤ → Reader T.In α) (a : α) (h : FieldHeader) :
    Reader T.In (ForInStep α) :=
  match h.id with
  | none => failure
  | some id => do
    let a ← value a h.type id
    T.readFieldEnd
    return .yield a

/-- `read_from_in_protocol` of `Timing`. -/
def timingRead (fuel : ℕ) : Reader T.In (Except String Timing) := do
  T.readStructBegin
  let fs ← untilStop Stops T.readFieldBegin (fieldTurn T (timingValue T)) fuel ⟨none,none,none⟩
  T.readStructEnd
  return fs.timing

/-- What has been read of a `BenchBenchArgs`, or the name of a member that is missing. -/
abbrev ArgsFields := Except String (Option Timing)

def benchArgsTurn (fuel : ℕ) (a : ArgsFields) (h : FieldHeader) :
    Reader T.In (ForInStep ArgsFields) :=
  match h.id with
  | none => failure
  | some id =>
    if id = 1 then do
      match ← timingRead T fuel with
      | .error name => return .done (.error name)
      | .ok v =>
        T.readFieldEnd
        return .yield (.ok (some v))
    else do
      T.skip h.type
      T.readFieldEnd
      return .yield a

/-- The end of `BenchBenchArgs::read_from_in_protocol`, unless its loop has returned an error. -/
def benchArgsEnd : ArgsFields → Reader T.In (Except String Timing)
  | .error name => return .error name
  | .ok f1 => do
    T.readStructEnd
    match f1 with
    | none => return .error "BenchBenchArgs.arg"
    | some arg => return .ok arg

/-- `read_from_in_protocol` of `BenchBenchArgs`. -/
def benchArgsRead (fuel : ℕ) : Reader T.In (Except String Timing) := do
  T.readStructBegin
  let a ← untilStop Stops T.readFieldBegin (benchArgsTurn T fuel) fuel (.ok none)
  benchArgsEnd T a

def benchResultValue (f0 : Option ℤ) (type : TType) (id : ℤ) : Reader T.In (Option ℤ) :=
  if id = 0 then some <$> T.readI64
  else (fun _ => f0) <$> T.skip type

/-- `read_from_in_protocol` of `BenchBenchResult`. -/
def benchResultRead (fuel : ℕ) : Reader T.In (Option ℤ) := do
  T.readStructBegin
  let f0 ← untilStop Stops T.readFieldBegin (fieldTurn T (benchResultValue T)) fuel none
  T.readStructEnd
  return f0

/-! ## Writing -/

def writeField (name : String) (type : TType) (id : ℤ) (value : Reader T.Out Unit) :
    Reader T.Out Unit := do
  T.writeFieldBegin name type id
  value
  T.writeFieldEnd

def writeStruct (name : String) (fields : Reader T.Out Unit) : Reader T.Out Unit := do
  T.writeStructBegin name
  fields
  T.writeFieldStop
  T.writeStructEnd

/-- `write_to_out_protocol` of `Timing`. -/
def timingWrite (t : Timing) : Reader T.Out Unit :=
  writeStruct T "timing" do
    writeField T "msgid" .i64 1 (T.writeI64 t.msgid)
    writeField T "nanosec" .i64 2 (T.writeI64 t.nanosec)
    writeField T "source" .string 3 (T.writeString t.source)

/-- `write_to_out_protocol` of `BenchBenchArgs`. -/
def benchArgsWrite (arg : Timing) : Reader T.Out Unit :=
  writeStruct T "bench_args" (writeField T "arg" .struct 1 (timingWrite T arg))

/-- `write_to_out_protocol` of `BenchBenchResult`. -/
def benchResultWrite (resultValue : Option ℤ) : Reader T.Out Unit :=
  writeStruct T "BenchBenchResult"
    (match resultValue with
    | none => pure ()
    | some v => writeField T "result_value" .i64 0 (T.writeI64 v))

end Generated

/-! ## The crate is only used through what it does to the bytes -/

section Documented
variable {T : Crate} {view : View T} {α : Type}

theorem fieldTurn_reading (hdoc : Documented T view) {value : α → TType → ℤ → Reader T.In α}
    {value' : α → TType → ℤ → Reader Input α}
    (hvalue : ∀ a type id, Reading view (value a type id) (value' a type id)) (a : α)
    (h : FieldHeader) :
    Reading view (fieldTurn T value a h) (fieldTurn documentedCrate value' a h) := by
  unfold fieldTurn
  split
  · exact .failure
  · exact (hvalue a _ _).bind (fun a => hdoc.readFieldEnd.bind (fun _ => .pure _))

theorem timingRead_reading (hdoc : Documented T view) (fuel : ℕ) :
    Reading view (timingRead T fuel) (timingRead documentedCrate fuel) := by
  refine hdoc.readStructBegin.bind (fun _ => Follows.bind ?_ (fun fs =>
    hdoc.readStructEnd.bind (fun _ => .pure _)))
  refine untilStop_follows hdoc.readFieldBegin (fieldTurn_reading hdoc (fun fs type id => ?_)) fuel _
  unfold timingValue
  split
  · exact hdoc.readI64.map _
  · split
    · exact hdoc.readI64.map _
    · split
      · exact hdoc.readString.map _
      · exact (hdoc.skip type).map _

theorem benchArgsTurn_reading (hdoc : Documented T view) (fuel : ℕ) (a : ArgsFields)
    (h : FieldHeader) :
    Reading view (benchArgsTurn T fuel a h) (benchArgsTurn documentedCrate fuel a h) := by
  unfold benchArgsTurn
  split
  · exact .failure
  · split
    · refine (timingRead_reading hdoc fuel).bind (fun r => ?_)
      cases r with
      | error name => exact .pure _
      | ok v => exact hdoc.readFieldEnd.bind (fun _ => .pure _)
    · exact (hdoc.skip h.type).bind (fun _ => hdoc.readFieldEnd.bind (fun _ => .pure _))

theorem benchArgsRead_reading (hdoc : Documented T view) (fuel : ℕ) :
    Reading view (benchArgsRead T fuel) (benchArgsRead documentedCrate fuel) := by
  refine hdoc.readStructBegin.bind (fun _ => (untilStop_follows hdoc.readFieldBegin
    (benchArgsTurn_reading hdoc fuel) fuel _).bind (fun a => ?_))
  cases a with
  | error name => exact .pure _
  | ok f1 =>
    refine hdoc.readStructEnd.bind (fun _ => ?_)
    cases f1 with
    | none => exact .pure _
    | some arg => exact .pure _

theorem benchResultRead_reading (hdoc : Documented T view) (fuel : ℕ) :
    Reading view (benchResultRead T fuel) (benchResultRead documentedCrate fuel) := by
  refine hdoc.readStructBegin.bind (fun _ => Follows.bind ?_ (fun f0 =>
    hdoc.readStructEnd.bind (fun _ => .pure _)))
  refine untilStop_follows hdoc.readFieldBegin (fieldTurn_reading hdoc (fun f0 type id => ?_)) fuel _
  unfold benchResultValue
  split
  · exact hdoc.readI64.map _
  · exact (hdoc.skip type).map _

theorem writeField_writing (hdoc : Documented T view) {name : String} {type : TType}
    (htype : type ≠ .bool) {id : ℤ} {value : Reader T.Out Unit} {value' : Reader Output Unit}
    (h : Writing view value value') :
    Writing view (writeField T name type id value)
      (writeField documentedCrate name type id value') :=
  (hdoc.writeFieldBegin _ _ _ htype).bind (fun _ => h.bind (fun _ => hdoc.writeFieldEnd))

theorem writeStruct_writing (hdoc : Documented T view) {name : String} {fields : Reader T.Out Unit}
    {fields' : Reader Output Unit} (h : Writing view fields fields') :
    Writing view (writeStruct T name fields) (writeStruct documentedCrate name fields') :=
  (hdoc.writeStructBegin _).bind (fun _ => h.bind (fun _ =>
    hdoc.writeFieldStop.bind (fun _ => hdoc.writeStructEnd)))

theorem timingWrite_writing (hdoc : Documented T view) (t : Timing) :
    Writing view (timingWrite T t) (timingWrite documentedCrate t) :=
  writeStruct_writing hdoc ((writeField_writing hdoc (by simp) (hdoc.writeI64 _)).bind (fun _ =>
    (writeField_writing hdoc (by simp) (hdoc.writeI64 _)).bind (fun _ =>
    writeField_writing hdoc (by simp) (hdoc.writeString _))))

theorem benchArgsWrite_writing (hdoc : Documented T view) (arg : Timing) :
    Writing view (benchArgsWrite T arg) (benchArgsWrite documentedCrate arg) :=
  writeStruct_writing hdoc (writeField_writing hdoc (by simp) (timingWrite_writing hdoc arg))

theorem benchResultWrite_writing (hdoc : Documented T view) (resultValue : Option ℤ) :
    Writing view (benchResultWrite T resultValue) (benchResultWrite documentedCrate resultValue) := by
  refine writeStruct_writing hdoc ?_
  cases resultValue with
  | none => exact .pure ()
  | some v => exact writeField_writing hdoc (by simp) (hdoc.writeI64 _)

end Documented

end RelayBench.ThriftRsWire
