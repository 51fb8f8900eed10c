import RelayBench.ThriftRs.Structs

/-! # What the struct readers take from a struct

Any struct is accepted whose known fields have the types they are expected to have: its fields may
come in any order, several times, with unknown ids and any types there. A member gets the value of
the last field with its id; a struct without a required member is read to its end.
-/
namespace RelayBench.ThriftRsWire
open Readers CompactMessages Varint
open CompactProtocol (utf8 fromUTF8?_utf8)
variable {α : Type} {c : Context} {room fuel : ℕ}

/-! ## The last value -/

/-- The value of the last field with this id. -/
def lastValue (id : ℤ) (fs : List Field) : Option (List UInt8) :=
  (fs.filter (fun f => f.id = id)).getLast?.map Field.value

theorem lastValue_snoc (id : ℤ) (fs : List Field) (f : Field) :
    lastValue id (fs ++ [f]) = if f.id = id then some f.value else lastValue id fs := by
  unfold lastValue
  rw [List.filter_append]
  by_cases h : f.id = id
  · simp [h]
  · simp [h, List.filter_cons_of_neg]

def i64Of (value : List UInt8) : ℤ := ((decode value).map (fun p => unzigzag p.1)).getD 0

/-- The bytes of a string without their number. -/
def stringOf (value : List UInt8) : String :=
  ((decode value).bind (fun p => String.fromUTF8? ⟨p.2.toArray⟩)).getD ""

theorem decode_encode_nil (n : ℕ) : decode (encode n) = some (n,[]) := by
  have h := decode_encode n []
  rwa [List.append_nil] at h

theorem i64Of_encode (v : ℤ) : i64Of (encode (zigzag v)) = v := by
  rw [i64Of, decode_encode_nil, Option.map_some, Option.getD_some, unzigzag_zigzag]

theorem stringOf_stringBytes (s : String) : stringOf (stringBytes s) = s := by
  rw [stringOf, stringBytes, decode_encode, Option.bind_some, fromUTF8?_utf8, Option.getD_some]

theorem readI64_encoded {value : List UInt8} (h : Encodes room .i64 value) :
    Reads (readInt 64) value c c (i64Of value) := by
  cases h with
  | i64 h =>
    rw [i64Of_encode]
    exact readInt_reads (by norm_num) h

theorem readString_encoded {value : List UInt8} (h : Encodes room .string value) :
    Reads readString value c c (stringOf value) := by
  cases h with
  | string h =>
    rw [stringOf_stringBytes]
    exact readString_reads h

/-! ## A struct of fields -/

/-- Fields of any types, with this type where the id is known. -/
structure Fields (expected : ℤ → Option TType) (fs : List Field) : Prop where
  valid : ValidFrom 0 fs
  encoded : ∀ f ∈ fs, f.Encoded skipLimit
  typed : ∀ f ∈ fs, ∀ type, expected f.id = some type → f.type = type

/-- A value of an expected type that is no Boolean. -/
theorem Fields.value {expected : ℤ → Option TType} {fs : List Field} (h : Fields expected fs)
    {f : Field} (hf : f ∈ fs) {type : TType} (htype : expected f.id = some type)
    (hbool : type ≠ .bool) : Encodes skipLimit type f.value ∧ f.type ≠ .bool := by
  have heq := h.typed f hf type htype
  have hne : f.type ≠ .bool := by rwa [heq]
  have hencoded := (h.encoded f hf).1 hne
  rw [heq] at hencoded
  exact ⟨hencoded,hne⟩

/-- What a field adds, behind whose header the context is as if it were no Boolean. -/
theorem value_bodyReads {f : Field} {value : α → TType → ℤ → Reader Input α} {a b : α}
    (h : ∀ c : Context, c.bool = none →
      Reads (value a f.type f.id) f.value (c.atField f) (c.after f) b) :
    BodyReads (fieldTurn documentedCrate value) f a (.yield b) := by
  intro c hbool
  exact (h c hbool).bind_nil ((Reads.pure ()).nil_bind (.pure _))

/-- A reader of a struct, from its begin to its end. -/
theorem struct_reads {value : α → TType → ℤ → Reader Input α} {step : α → Field → α}
    {fs : List Field} (hvalid : ValidFrom 0 fs) (hbool : c.bool = none)
    (hbody : ∀ f ∈ fs, ∀ a, BodyReads (fieldTurn documentedCrate value) f a (.yield (step a f)))
    (hfuel : fs.length < fuel) (a : α) :
    Reads (do
      readStructBegin
      let a ← untilStop Stops readFieldBegin (fieldTurn documentedCrate value) fuel a
      readStructEnd
      return a) (structBytes 0 fs) c c (fs.foldl step a) := by
  obtain ⟨last,hloop⟩ := @untilStop_reads α
    { c with lastField := 0, saved := c.lastField :: c.saved } _ step _ _ hvalid hbool hbody hfuel a
  exact readStructBegin_reads.nil_bind (hloop.bind_nil
    ((readStructEnd_reads last).nil_bind (.pure _)))

/-! ## `Timing` -/

def timingType (id : ℤ) : Option TType :=
  if id = 1 then some .i64 else if id = 2 then some .i64 else if id = 3 then some .string else none

/-- The variables after one more field. -/
def TimingFields.assign (fs : TimingFields) (f : Field) : TimingFields :=
  if f.id = 1 then { fs with f1 := some (i64Of f.value) }
  else if f.id = 2 then { fs with f2 := some (i64Of f.value) }
  else if f.id = 3 then { fs with f3 := some (stringOf f.value) }
  else fs

/-- The variables after these fields. -/
def timingFields (fs : List Field) : TimingFields :=
  ⟨(lastValue 1 fs).map i64Of,(lastValue 2 fs).map i64Of,(lastValue 3 fs).map stringOf⟩

theorem timingFields_snoc (fs : List Field) (f : Field) :
    timingFields (fs ++ [f]) = (timingFields fs).assign f := by
  unfold timingFields TimingFields.assign
  simp only [lastValue_snoc]
  by_cases h1 : f.id = 1
  · simp [h1]
  · by_cases h2 : f.id = 2
    · simp [h2]
    · by_cases h3 : f.id = 3
      · simp [h3]
      · simp [h1, h2, h3]

theorem foldl_assign (fs : List Field) :
    fs.foldl TimingFields.assign ⟨none,none,none⟩ = timingFields fs := by
  induction fs using List.reverseRecOn with
  | nil => rfl
  | append_singleton fs f ih =>
    rw [List.foldl_append, ih, timingFields_snoc, List.foldl_cons, List.foldl_nil]

theorem timingValue_reads {fs : List Field} (h : Fields timingType fs) {f : Field} (hf : f ∈ fs)
    (a : TimingFields) (hbool : c.bool = none) :
    Reads (timingValue documentedCrate a f.type f.id) f.value (c.atField f) (c.after f)
      (a.assign f) := by
  unfold timingValue TimingFields.assign
  by_cases h1 : f.id = 1
  · rw [if_pos h1, if_pos h1]
    obtain ⟨hvalue,hne⟩ := h.value hf (by rw [timingType, if_pos h1]) (by simp)
    rw [c.atField_eq hne]
    exact (readI64_encoded hvalue).map _
  rw [if_neg h1, if_neg h1]
  by_cases h2 : f.id = 2
  · rw [if_pos h2, if_pos h2]
    obtain ⟨hvalue,hne⟩ := h.value hf (by rw [timingType, if_neg h1, if_pos h2]) (by simp)
    rw [c.atField_eq hne]
    exact (readI64_encoded hvalue).map _
  rw [if_neg h2, if_neg h2]
  by_cases h3 : f.id = 3
  · rw [if_pos h3, if_pos h3]
    obtain ⟨hvalue,hne⟩ := h.value hf (by rw [timingType, if_neg h1, if_neg h2, if_pos h3]) (by simp)
    rw [c.atField_eq hne]
    exact (readString_encoded hvalue).map _
  rw [if_neg h3, if_neg h3]
  exact (skipField_reads (h.encoded f hf) le_rfl hbool).map _

/-- A struct is read as a `Timing`, or as one that lacks a member. -/
theorem timingRead_reads {fs : List Field} (h : Fields timingType fs) (hfuel : fs.length < fuel)
    (hbool : c.bool = none) :
    Reads (timingRead documentedCrate fuel) (structBytes 0 fs) c c (timingFields fs).timing := by
  have hread := (struct_reads h.valid hbool (fun f hf a => value_bodyReads
    (fun c hc => timingValue_reads h hf a hc)) hfuel ⟨none,none,none⟩).map TimingFields.timing
  rw [foldl_assign] at hread
  unfold timingRead
  simpa only [map_bind, map_pure] using hread

/-! ## The arguments and the result of a call -/

/-- The field of the argument, with a struct of these fields. -/
def argField (fs : List Field) : Field := fieldAt 0 .struct 1 (structBytes 0 fs)

theorem argField_valid (fs : List Field) : (argField fs).Valid 0 :=
  fieldAt_valid (by simp) (by simp) (by norm_num [Fits]) _

theorem argField_atField (fs : List Field) :
    c.atField (argField fs) = { c with lastField := 1 } :=
  c.atField_eq (show TType.struct ≠ .bool by simp)

/-- The context at the begin of a struct. -/
def inStruct (c : Context) : Context :=
  { c with lastField := 0, saved := c.lastField :: c.saved }

theorem benchArgsTurn_reads {fs : List Field} (h : Fields timingType fs) (hfuel : fs.length < fuel)
    {t : Timing} (ht : (timingFields fs).timing = .ok t) (a : ArgsFields) :
    BodyReads (benchArgsTurn documentedCrate fuel) (argField fs) a (.yield (.ok (some t))) := by
  intro c hbool
  have hread := @timingRead_reads { c with lastField := 1 } fuel _ h hfuel hbool
  rw [argField_atField]
  refine hread.bind_nil ?_
  rw [ht]
  exact (Reads.pure ()).nil_bind (.pure _)

/-- The arguments of a call with a whole `Timing`. -/
theorem benchArgsRead_ok {fs : List Field} (h : Fields timingType fs) (hone : 1 < fuel)
    (hfuel : fs.length < fuel) (hbool : c.bool = none) {t : Timing}
    (ht : (timingFields fs).timing = .ok t) :
    Reads (benchArgsRead documentedCrate fuel) (structBytes 0 [argField fs]) c c (.ok t) := by
  have hbody : ∀ f ∈ [argField fs], ∀ a, BodyReads (benchArgsTurn documentedCrate fuel) f a
      (.yield ((fun _ _ => .ok (some t) : ArgsFields → Field → ArgsFields) a f)) := by
    intro f hf a
    obtain rfl := List.mem_singleton.mp hf
    exact benchArgsTurn_reads h hfuel ht a
  obtain ⟨last,hloop⟩ := @untilStop_reads ArgsFields (inStruct c) _ _ fuel [argField fs]
    ⟨argField_valid fs,trivial⟩ hbool hbody hone (.ok none)
  exact readStructBegin_reads.nil_bind (hloop.bind_nil
    ((readStructEnd_reads last).nil_bind (.pure _)))

/-- Where a member is missing the reader stops before the end of the arguments. -/
theorem benchArgsRead_missing {fs : List Field} (h : Fields timingType fs) (hone : 1 < fuel)
    (hfuel : fs.length < fuel) (hbool : c.bool = none) {name : String}
    (hname : (timingFields fs).timing = .error name) :
    Reads (benchArgsRead documentedCrate fuel) ((argField fs).begin 0 ++ structBytes 0 fs) c
      { inStruct c with lastField := 1 } (.error name) := by
  obtain ⟨fuel,rfl⟩ : ∃ n, fuel = n + 1 := ⟨fuel - 1,by omega⟩
  have hheader := @readFieldBegin_reads (inStruct c) _ (argField_valid fs)
  rw [argField_atField] at hheader
  have hinner := @timingRead_reads { inStruct c with lastField := 1 } (fuel + 1) _ h hfuel hbool
  refine readStructBegin_reads.nil_bind (Reads.bind_nil (a := .error name) ?_ (.pure _))
  refine hheader.bind ?_
  rw [if_neg (show ¬Stops (argField fs).header from (argField_valid fs).type)]
  refine Reads.bind_nil (a := .done (.error name)) (hinner.bind_nil ?_) (.pure _)
  rw [hname]
  exact .pure _

/-- Arguments without the argument. -/
theorem benchArgsRead_none (hfuel : 0 < fuel) (hbool : c.bool = none) :
    Reads (benchArgsRead documentedCrate fuel) (structBytes 0 []) c c
      (.error "BenchBenchArgs.arg") := by
  have hbody : ∀ f ∈ ([] : List Field), ∀ a, BodyReads (benchArgsTurn documentedCrate fuel) f a
      (.yield ((fun a _ => a : ArgsFields → Field → ArgsFields) a f)) := by
    intro f hf
    cases hf
  obtain ⟨last,hloop⟩ := @untilStop_reads ArgsFields (inStruct c) _ _ fuel [] trivial hbool hbody hfuel
    (.ok none)
  exact readStructBegin_reads.nil_bind (hloop.bind_nil
    ((readStructEnd_reads last).nil_bind (.pure _)))

def resultType (id : ℤ) : Option TType := if id = 0 then some .i64 else none

/-- The value of a result of these fields. -/
def resultValue (fs : List Field) : Option ℤ := (lastValue 0 fs).map i64Of

theorem foldl_result (fs : List Field) :
    fs.foldl (fun f0 f => if f.id = 0 then some (i64Of f.value) else f0) none =
      resultValue fs := by
  induction fs using List.reverseRecOn with
  | nil => rfl
  | append_singleton fs f ih =>
    rw [List.foldl_append, ih, List.foldl_cons, List.foldl_nil, resultValue, resultValue,
      lastValue_snoc]
    by_cases h0 : f.id = 0
    · rw [if_pos h0, if_pos h0, Option.map_some]
    · rw [if_neg h0, if_neg h0]

theorem benchResultRead_reads {fs : List Field} (h : Fields resultType fs)
    (hfuel : fs.length < fuel) (hbool : c.bool = none) :
    Reads (benchResultRead documentedCrate fuel) (structBytes 0 fs) c c (resultValue fs) := by
  rw [← foldl_result]
  refine struct_reads h.valid hbool (fun f hf f0 => value_bodyReads (fun c hc => ?_)) hfuel none
  unfold benchResultValue
  by_cases h0 : f.id = 0
  · rw [if_pos h0, if_pos h0]
    obtain ⟨hvalue,hne⟩ := h.value hf (by rw [resultType, if_pos h0]) (by simp)
    rw [c.atField_eq hne]
    exact (readI64_encoded hvalue).map _
  · rw [if_neg h0, if_neg h0]
    exact (skipField_reads (h.encoded f hf) le_rfl hc).map _

/-! ## What the writers write -/

/-- The fields of a `Timing`. -/
def timingWritten (t : Timing) : List Field :=
  [fieldAt 0 .i64 1 (encode (zigzag t.msgid)),fieldAt 1 .i64 2 (encode (zigzag t.nanosec)),
    fieldAt 2 .string 3 (stringBytes t.source)]

/-- The fields of a result. -/
def resultWritten (v : Option ℤ) : List Field :=
  v.elim [] (fun v => [fieldAt 0 .i64 0 (encode (zigzag v))])

theorem writeField_writes {type : TType} (ht : type ≠ .bool) {last id : ℤ} {name : String}
    {value : Reader Output Unit} {bytes : List UInt8} (h : Writes value bytes id id) :
    Writes (writeField documentedCrate name type id value)
      ((fieldAt last type id bytes).begin last ++ bytes) last id := by
  have hfield := (fieldBegin_writes ht last id bytes).bind (h.bind (q := []) .pure)
  rwa [List.append_nil] at hfield

theorem writeStruct_writes {last id : ℤ} {name : String} {fields : Reader Output Unit}
    {bytes : List UInt8} (h : Writes fields bytes 0 id) :
    Writes (writeStruct documentedCrate name fields) (bytes ++ [0]) last last := by
  have hstruct := @struct_writes _ _ last _ (h.bind (put_writes [0]))
  unfold writeStruct
  simpa only [bind_assoc] using hstruct

theorem timingWrite_writes (t : Timing) {last : ℤ} :
    Writes (timingWrite documentedCrate t) (structBytes 0 (timingWritten t)) last last := by
  have hmsgid : Writes (writeField documentedCrate "msgid" .i64 1
      (Output.put (encode (zigzag t.msgid)))) _ 0 1 := writeField_writes (by simp) (put_writes _)
  have hnanosec : Writes (writeField documentedCrate "nanosec" .i64 2
      (Output.put (encode (zigzag t.nanosec)))) _ 1 2 := writeField_writes (by simp) (put_writes _)
  have hsource : Writes (writeField documentedCrate "source" .string 3
      (Output.put (stringBytes t.source))) _ 2 3 := writeField_writes (by simp) (put_writes _)
  have hall := @writeStruct_writes last _ "timing" _ _ (hmsgid.bind (hnanosec.bind hsource))
  simp only [List.append_assoc] at hall
  exact hall

theorem benchArgsWrite_writes (arg : Timing) {last : ℤ} :
    Writes (benchArgsWrite documentedCrate arg) (structBytes 0 [argField (timingWritten arg)])
      last last := by
  have harg : Writes (writeField documentedCrate "arg" .struct 1 (timingWrite documentedCrate arg))
      _ 0 1 := writeField_writes (by simp) (timingWrite_writes arg)
  have hall := @writeStruct_writes last _ "bench_args" _ _ harg
  rw [List.append_assoc] at hall
  exact hall

theorem benchResultWrite_writes (v : Option ℤ) {last : ℤ} :
    Writes (benchResultWrite documentedCrate v) (structBytes 0 (resultWritten v)) last last := by
  unfold benchResultWrite
  cases v with
  | none => exact writeStruct_writes .pure
  | some v =>
    have hvalue : Writes (writeField documentedCrate "result_value" .i64 0
        (Output.put (encode (zigzag v)))) _ 0 0 := writeField_writes (by simp) (put_writes _)
    have hall := @writeStruct_writes last _ "BenchBenchResult" _ _ hvalue
    rw [List.append_assoc] at hall
    exact hall

/-! ## What is written is read back -/

/-- A `Timing` of two `i64` and a string that has a length. -/
structure Sendable (t : Timing) : Prop where
  msgid : Fits 64 t.msgid
  nanosec : Fits 64 t.nanosec
  source : (utf8 t.source).length < 2 ^ 32

theorem fieldAt_encoded {type : TType} (hbool : type ≠ .bool) {last id : ℤ} {value : List UInt8}
    (h : Encodes room type value) : (fieldAt last type id value).Encoded room :=
  ⟨fun _ => h,fun ht => absurd ht hbool⟩

theorem Sendable.fields {t : Timing} (h : Sendable t) : Fields timingType (timingWritten t) where
  valid := ⟨fieldAt_valid (by simp) (by simp) (by norm_num [Fits]) _,
    fieldAt_valid (by simp) (by simp) (by norm_num [Fits]) _,
    fieldAt_valid (by simp) (by simp) (by norm_num [Fits]) _,trivial⟩
  encoded f hf := by
    simp only [timingWritten, List.mem_cons, List.not_mem_nil, or_false] at hf
    rcases hf with rfl | rfl | rfl
    · exact fieldAt_encoded (by simp) (.i64 h.msgid)
    · exact fieldAt_encoded (by simp) (.i64 h.nanosec)
    · exact fieldAt_encoded (by simp) (.string h.source)
  typed f hf type htype := by
    simp only [timingWritten, List.mem_cons, List.not_mem_nil, or_false] at hf
    rcases hf with rfl | rfl | rfl <;> simpa [timingType, fieldAt] using htype

theorem timingFields_written (t : Timing) :
    (timingFields (timingWritten t)).timing = .ok t := by
  have h1 : lastValue 1 (timingWritten t) = some (encode (zigzag t.msgid)) := by
    simp [lastValue, timingWritten, fieldAt]
  have h2 : lastValue 2 (timingWritten t) = some (encode (zigzag t.nanosec)) := by
    simp [lastValue, timingWritten, fieldAt]
  have h3 : lastValue 3 (timingWritten t) = some (stringBytes t.source) := by
    simp [lastValue, timingWritten, fieldAt]
  rw [timingFields, h1, h2, h3, Option.map_some, Option.map_some, Option.map_some, i64Of_encode,
    i64Of_encode, stringOf_stringBytes]
  rfl

theorem resultWritten_fields {v : Option ℤ} (h : ∀ x ∈ v, Fits 64 x) :
    Fields resultType (resultWritten v) := by
  cases v with
  | none =>
    refine ⟨trivial,?_,?_⟩
    · intro f hf
      cases hf
    · intro f hf
      cases hf
  | some x =>
    refine ⟨⟨fieldAt_valid (by simp) (by simp) (by norm_num [Fits]) _,trivial⟩,
      fun f hf => ?_,fun f hf type htype => ?_⟩
    · obtain rfl := List.mem_singleton.mp hf
      exact fieldAt_encoded (by simp) (.i64 (h x rfl))
    · obtain rfl := List.mem_singleton.mp hf
      simpa [resultType, fieldAt] using htype

theorem resultValue_written (v : Option ℤ) : resultValue (resultWritten v) = v := by
  cases v with
  | none => rfl
  | some v =>
    have hlast : lastValue 0 (resultWritten (some v)) = some (encode (zigzag v)) := by
      simp [lastValue, resultWritten, fieldAt]
    rw [resultValue, hlast, Option.map_some, i64Of_encode]

/-! ## Any struct, and only the whole of it -/

theorem fieldTurn_local {value : α → TType → ℤ → Reader Input α}
    (hvalue : ∀ a type id, Local Input.extend (value a type id)) (a : α) (h : FieldHeader) :
    Local Input.extend (fieldTurn documentedCrate value a h) := by
  unfold fieldTurn
  split
  · exact .failure
  · exact (hvalue a _ _).bind (fun a => (Local.pure ()).bind (fun _ => .pure _))

theorem timingRead_local (fuel : ℕ) : Local Input.extend (timingRead documentedCrate fuel) := by
  refine readStructBegin_local.bind (fun _ => Local.bind ?_ (fun fs =>
    readStructEnd_local.bind (fun _ => .pure _)))
  refine untilStop_local readFieldBegin_local (fieldTurn_local (fun fs type id => ?_)) fuel _
  unfold timingValue
  split
  · exact (readInt_local 64).map _
  · split
    · exact (readInt_local 64).map _
    · split
      · exact readString_local.map _
      · exact (skip_local skipLimit type).map _

/-- `Timing::read_from_in_protocol` takes the last value of each member from any struct and goes
on behind it; where a member is missing it has an error with the name of the first. On a struct
that is cut off it fails. -/
theorem timing_taken {T : Crate} {view : View T} (hdoc : Documented T view) {fs : List Field}
    (h : Fields timingType fs) (hfuel : fs.length < fuel) (hbool : c.bool = none) {i : T.In} :
    (∀ rest, view.input i = ⟨structBytes 0 fs ++ rest,c⟩ →
      ∃ j, (timingRead T fuel).run i = some ((timingFields fs).timing,j) ∧
        view.input j = ⟨rest,c⟩) ∧
    (∀ part, part <+: structBytes 0 fs → part ≠ structBytes 0 fs → view.input i = ⟨part,c⟩ →
      (timingRead T fuel).run i = none) := by
  have hreads := timingRead_reads h hfuel hbool
  have hreading := timingRead_reading hdoc fuel
  constructor
  · intro rest hview
    apply hreading.some trivial
    rw [hview]
    exact hreads rest
  · intro part hpart hshort hview
    apply hreading.none trivial
    rw [hview]
    exact hreads.none_of_short (timingRead_local fuel) hpart hshort

/-- The source first, a list and a Boolean with unknown ids and two message ids; there are no
nanoseconds. -/
def unorderedFields : List Field :=
  [⟨.string,3,true,false,stringBytes "hi"⟩,⟨.list,9,true,false,[0x13,5]⟩,⟨.bool,40,false,true,[]⟩,
    ⟨.i64,1,false,false,encode (zigzag 2)⟩,⟨.i64,1,false,false,encode (zigzag 7)⟩]

theorem unorderedFields_fields : Fields timingType unorderedFields where
  valid := by
    refine ⟨⟨?_,?_,?_,?_⟩,⟨?_,?_,?_,?_⟩,⟨?_,?_,?_,?_⟩,⟨?_,?_,?_,?_⟩,⟨?_,?_,?_,?_⟩,trivial⟩ <;>
      simp [Fits]
  encoded f hf := by
    simp only [unorderedFields, List.mem_cons, List.not_mem_nil, or_false] at hf
    rcases hf with rfl | rfl | rfl | rfl | rfl
    · refine ⟨fun _ => ?_,by simp⟩
      exact @Encodes.string 63 "hi" (by decide)
    · refine ⟨fun _ => ?_,by simp⟩
      refine @Encodes.list 63 .i8 [[5]] (by norm_num) (fun item hitem => ?_)
      obtain rfl := List.mem_singleton.mp hitem
      exact .i8 5
    · exact ⟨by simp,fun _ => ⟨rfl,by decide⟩⟩
    · refine ⟨fun _ => ?_,by simp⟩
      exact @Encodes.i64 63 2 (by norm_num [Fits])
    · refine ⟨fun _ => ?_,by simp⟩
      exact @Encodes.i64 63 7 (by norm_num [Fits])
  typed f hf type htype := by
    simp only [unorderedFields, List.mem_cons, List.not_mem_nil, or_false] at hf
    rcases hf with rfl | rfl | rfl | rfl | rfl
    · simpa [timingType] using htype
    · simp [timingType] at htype
    · simp [timingType] at htype
    · simpa [timingType] using htype
    · simpa [timingType] using htype

theorem timing_taken_unorderedFields : ∃ j, (timingRead documentedCrate 6).run
      ⟨structBytes 0 unorderedFields ++ [1,2],⟨5,[],none⟩⟩ = some (.error "Timing.nanosec",j) ∧
    j = ⟨[1,2],⟨5,[],none⟩⟩ :=
  (timing_taken documentedCrate_documented unorderedFields_fields
    (show unorderedFields.length < 6 by decide) rfl
    (i := ⟨structBytes 0 unorderedFields ++ [1,2],⟨5,[],none⟩⟩)).1 [1,2] rfl

end RelayBench.ThriftRsWire
