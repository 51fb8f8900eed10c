import RelayBench.ThriftCpp.Structs

/-! # What the struct readers take from a struct

Any struct is accepted: its fields may come in any order, several times, with unknown ids or
other types than expected. A member gets the value of the last field with its id and its type.
-/
namespace RelayBench.ThriftWire
open Readers BinaryProtocol
variable {α : Type} {room n : ℕ}

/-! ## The last value -/

/-- The value of the last field with this id and this type. -/
def lastValue (id : ℤ) (type : TType) (fs : List Field) : Option (List UInt8) :=
  (fs.filter (fun f => f.id = id ∧ f.type = type)).getLast?.map Field.value

theorem lastValue_snoc (id : ℤ) (type : TType) (fs : List Field) (f : Field) :
    lastValue id type (fs ++ [f]) =
      if f.id = id ∧ f.type = type then some f.value else lastValue id type fs := by
  unfold lastValue
  rw [List.filter_append]
  by_cases h : f.id = id ∧ f.type = type
  · simp [h]
  · simp [h, List.filter_cons_of_neg]

/-- The bytes of a string without their size. -/
def stringOf (value : List UInt8) : List UInt8 := value.drop 4

/-- The members after these fields. -/
def WireTiming.after (t : WireTiming) (fs : List Field) : WireTiming where
  msgid := (lastValue 1 .i64 fs).elim t.msgid toInt
  nanosec := (lastValue 2 .i64 fs).elim t.nanosec toInt
  source := (lastValue 3 .string fs).elim t.source stringOf
  isset := ⟨t.isset.msgid || (lastValue 1 .i64 fs).isSome,
    t.isset.nanosec || (lastValue 2 .i64 fs).isSome,
    t.isset.source || (lastValue 3 .string fs).isSome⟩

/-- The members after one more field. -/
def WireTiming.assign (t : WireTiming) (f : Field) : WireTiming :=
  if f.id = 1 then
    if f.type = .i64 then
      { t with msgid := toInt f.value, isset := { t.isset with msgid := true } }
    else t
  else if f.id = 2 then
    if f.type = .i64 then
      { t with nanosec := toInt f.value, isset := { t.isset with nanosec := true } }
    else t
  else if f.id = 3 then
    if f.type = .string then
      { t with source := stringOf f.value, isset := { t.isset with source := true } }
    else t
  else t

theorem after_snoc (t : WireTiming) (fs : List Field) (f : Field) :
    t.after (fs ++ [f]) = (t.after fs).assign f := by
  unfold WireTiming.after WireTiming.assign
  simp only [lastValue_snoc]
  by_cases h1 : f.id = 1
  · by_cases ht : f.type = .i64 <;> simp [h1, ht]
  · by_cases h2 : f.id = 2
    · by_cases ht : f.type = .i64 <;> simp [h2, ht]
    · by_cases h3 : f.id = 3
      · by_cases ht : f.type = .string <;> simp [h3, ht]
      · simp [h1, h2, h3]

theorem foldl_assign (t : WireTiming) (fs : List Field) :
    fs.foldl WireTiming.assign t = t.after fs := by
  induction fs using List.reverseRecOn with
  | nil => simp [WireTiming.after, lastValue]
  | append_singleton fs f ih => rw [List.foldl_append, ih, after_snoc, List.foldl_cons, List.foldl_nil]

/-! ## Values by their type -/

theorem i64_length {bytes : List UInt8} (h : Encodes room .i64 bytes) : bytes.length = 8 := by
  cases h with
  | scalar h => exact (Option.some.inj h).symm

theorem stringOf_writeInt (bytes : List UInt8) :
    stringOf (writeInt 4 bytes.length ++ bytes) = bytes := List.drop_left' (writeInt_length 4 _)

theorem string_eq {bytes : List UInt8} (h : Encodes room .string bytes) :
    (stringOf bytes).length < 2 ^ 31 ∧
      bytes = writeInt 4 (stringOf bytes).length ++ stringOf bytes := by
  cases h with
  | scalar h => cases h
  | string h =>
    rw [stringOf_writeInt]
    exact ⟨h,rfl⟩

theorem readI64_reads {bytes : List UInt8} (h : Encodes room .i64 bytes) :
    Reads room (readInt 8) bytes (toInt bytes) :=
  (take_reads (i64_length h)).map toInt

theorem readString_encoded {bytes : List UInt8} (h : Encodes room .string bytes) :
    Reads room readString bytes (stringOf bytes) := by
  obtain ⟨hlength,heq⟩ := string_eq h
  have hread := @readString_reads room _ hlength
  rwa [← heq] at hread

/-- A field that is skipped leaves the members as they are. -/
theorem skip_keeps {type : TType} {bytes : List UInt8} (h : Encodes room type bytes) (a : α) :
    Reads room (do skipValue type; return a) bytes a := by
  have hread := (skipValue_reads h).map (fun _ => a)
  rwa [map_eq_pure_bind] at hread

/-- A member whose field is read if it has the expected type. -/
theorem member_reads {β : Type} {f : Reader Input β} {type expected : TType} {bytes : List UInt8}
    {v : β} (hf : type = expected → Reads room f bytes v) (h : Encodes room type bytes)
    (set : β → α) (a : α) :
    Reads room
      (if type = expected then do let v ← f; return set v else do skipValue type; return a) bytes
      (if type = expected then set v else a) := by
  by_cases ht : type = expected
  · rw [if_pos ht, if_pos ht]
    have hread := (hf ht).map set
    rwa [map_eq_pure_bind] at hread
  · rw [if_neg ht, if_neg ht]
    exact skip_keeps h a

/-! ## Structs -/

/-- Fields of any known types, nested at most `room` deep. -/
structure Fields (room : ℕ) (fs : List Field) : Prop where
  valid : ∀ f ∈ fs, f.Valid
  encodes : ∀ f ∈ fs, Encodes room f.type f.value

theorem readStruct_reads {field : α → TType → ℤ → Reader Input α} {step : α → Field → α}
    {fuel : ℕ} {fs : List Field} (hvalid : ∀ f ∈ fs, f.Valid)
    (hfield : ∀ f ∈ fs, ∀ a, Reads room (field a f.type f.id) f.value (step a f))
    (hfuel : fs.length < fuel) (a : α) :
    Reads (room + 1) (readStruct (documentedProtocol n) field fuel a) (structBytes fs)
      (fs.foldl step a) := by
  have hbody : Reads room (readBody (documentedProtocol n) field fuel a)
      (structBytes fs) (fs.foldl step a) := by
    refine (Reads.pure ()).nil_bind ?_
    exact (readFields_reads hvalid hfield hfuel a).bind_nil ((Reads.pure ()).nil_bind (.pure _))
  exact hbody.inside

theorem timingField_reads {f : Field} (h : Encodes room f.type f.value) (t : WireTiming) :
    Reads room (timingField (documentedProtocol n) t f.type f.id) f.value
      (t.assign f) := by
  have hi64 : f.type = .i64 → Reads room (readInt 8) f.value (toInt f.value) := by
    intro ht
    rw [ht] at h
    exact readI64_reads h
  have hstring : f.type = .string → Reads room readString f.value (stringOf f.value) := by
    intro ht
    rw [ht] at h
    exact readString_encoded h
  unfold timingField WireTiming.assign
  by_cases h1 : f.id = 1
  · rw [if_pos h1, if_pos h1]
    exact member_reads hi64 h _ t
  rw [if_neg h1, if_neg h1]
  by_cases h2 : f.id = 2
  · rw [if_pos h2, if_pos h2]
    exact member_reads hi64 h _ t
  rw [if_neg h2, if_neg h2]
  by_cases h3 : f.id = 3
  · rw [if_pos h3, if_pos h3]
    exact member_reads hstring h _ t
  rw [if_neg h3, if_neg h3]
  exact skip_keeps h t

theorem timingRead_reads {fs : List Field} (h : Fields room fs) {fuel : ℕ}
    (hfuel : fs.length < fuel) (t : WireTiming) :
    Reads (room + 1) (timingRead (documentedProtocol n) fuel t) (structBytes fs)
      (t.after fs) := by
  rw [← foldl_assign]
  exact readStruct_reads h.valid (fun f hf t => timingField_reads (h.encodes f hf) t) hfuel t

/-- The struct of one call's arguments. -/
theorem benchArgsRead_reads {fs : List Field} (h : Fields room fs) {fuel : ℕ} (hone : 1 < fuel)
    (hfuel : fs.length < fuel) (args : BenchArgs) :
    Reads (room + 2) (benchArgsRead (documentedProtocol n) fuel args)
      (structBytes [⟨.struct,1,structBytes fs⟩]) ⟨args.arg.after fs,true⟩ := by
  have hvalid : ∀ f ∈ [(⟨.struct,1,structBytes fs⟩ : Field)], f.Valid := by
    intro f hf
    obtain rfl := List.mem_singleton.mp hf
    exact ⟨trivial,by norm_num [Fits]⟩
  refine @readStruct_reads _ _ n _ (fun args _ => ⟨args.arg.after fs,true⟩) _ _ hvalid
    (fun f hf args => ?_) hone args
  obtain rfl := List.mem_singleton.mp hf
  have hread := (timingRead_reads (n := n) h hfuel args.arg).map
    (fun arg => (⟨arg,true⟩ : BenchArgs))
  rw [benchArgsField, if_pos rfl, if_pos rfl]
  rwa [map_eq_pure_bind] at hread

/-- The members of a result after these fields. -/
def BenchResult.after (result : BenchResult) (fs : List Field) : BenchResult where
  success := (lastValue 0 .i64 fs).elim result.success toInt
  issetSuccess := result.issetSuccess || (lastValue 0 .i64 fs).isSome

def BenchResult.assign (result : BenchResult) (f : Field) : BenchResult :=
  if f.id = 0 then
    if f.type = .i64 then ⟨toInt f.value,true⟩ else result
  else result

theorem foldl_assign_result (result : BenchResult) (fs : List Field) :
    fs.foldl BenchResult.assign result = result.after fs := by
  induction fs using List.reverseRecOn with
  | nil => simp [BenchResult.after, lastValue]
  | append_singleton fs f ih =>
    rw [List.foldl_append, ih, List.foldl_cons, List.foldl_nil]
    unfold BenchResult.after BenchResult.assign
    simp only [lastValue_snoc]
    by_cases h0 : f.id = 0
    · by_cases ht : f.type = .i64 <;> simp [h0, ht]
    · simp [h0]

theorem benchResultRead_reads {fs : List Field} (h : Fields room fs) {fuel : ℕ}
    (hfuel : fs.length < fuel) (result : BenchResult) :
    Reads (room + 1) (benchResultRead (documentedProtocol n) fuel result) (structBytes fs)
      (result.after fs) := by
  rw [← foldl_assign_result]
  refine readStruct_reads h.valid (fun f hf result => ?_) hfuel result
  have hencodes := h.encodes f hf
  unfold benchResultField BenchResult.assign
  by_cases h0 : f.id = 0
  · rw [if_pos h0, if_pos h0]
    refine member_reads (fun ht => ?_) hencodes (fun v => (⟨v,true⟩ : BenchResult)) result
    rw [ht] at hencodes
    exact readI64_reads hencodes
  · rw [if_neg h0, if_neg h0]
    exact skip_keeps hencodes result

/-! ## What the writers write -/

theorem writeField_writes {value : Reader Output Unit} {f : Field}
    (h : Writes room value f.value) (name : String) :
    Writes room (writeField (documentedProtocol n) name f.type f.id value) f.bytes := by
  have hbind := (@put_writes room (fieldBegin f.type f.id)).bind (h.bind (q := []) .pure)
  rwa [List.append_nil] at hbind

theorem writeBody_writes {fields : Reader Output Unit} {p : List UInt8} (h : Writes room fields p)
    (name : String) : Writes room (writeBody (documentedProtocol n) name fields) (p ++ [0]) := by
  refine Writes.bind (p := []) .pure (h.bind ?_)
  exact (put_writes [0]).bind (q := []) .pure

theorem writeStruct_writes {fields : Reader Output Unit} {p : List UInt8}
    (h : Writes room fields p) (name : String) :
    Writes (room + 1) (writeStruct (documentedProtocol n) name fields) (p ++ [0]) :=
  (writeBody_writes h name).inside

/-- The fields of a `timing`. -/
def WireTiming.fields (t : WireTiming) : List Field :=
  [⟨.i64,1,writeInt 8 t.msgid⟩,⟨.i64,2,writeInt 8 t.nanosec⟩,
    ⟨.string,3,writeInt 4 t.source.length ++ t.source⟩]

theorem timingWrite_writes {t : WireTiming} (h : t.source.length < 2 ^ 31) :
    Writes (room + 1) (timingWrite (documentedProtocol n) t) (structBytes t.fields) := by
  have hmsgid := @writeField_writes room n _ ⟨.i64,1,writeInt 8 t.msgid⟩ (put_writes _) "msgid"
  have hnanosec := @writeField_writes room n _ ⟨.i64,2,writeInt 8 t.nanosec⟩ (put_writes _)
    "nanosec"
  have hsource := @writeField_writes room n _ ⟨.string,3,writeInt 4 t.source.length ++ t.source⟩
    (putString_writes h) "source"
  have hall := @writeStruct_writes room n _ _ (hmsgid.bind (hnanosec.bind hsource)) "timing"
  simp only [List.append_assoc] at hall
  exact hall

/-- The one field of the arguments of a call. -/
def argFields (arg : WireTiming) : List Field := [⟨.struct,1,structBytes arg.fields⟩]

theorem argsWrite_writes {arg : WireTiming} (h : arg.source.length < 2 ^ 31) (name : String) :
    Writes (room + 2) (argsWrite (documentedProtocol n) name arg) (structBytes (argFields arg)) :=
  writeStruct_writes (writeField_writes (f := ⟨.struct,1,structBytes arg.fields⟩)
    (timingWrite_writes h) "arg") name

/-- The fields of a result. -/
def BenchResult.fields (result : BenchResult) : List Field :=
  if result.issetSuccess then [⟨.i64,0,writeInt 8 result.success⟩] else []

theorem benchResultWrite_writes (result : BenchResult) :
    Writes room (benchResultWrite (documentedProtocol n) result) (structBytes result.fields) := by
  unfold benchResultWrite BenchResult.fields
  by_cases h : result.issetSuccess
  · rw [if_pos h, if_pos h]
    have hbody := @writeBody_writes room n _ _ (@writeField_writes room n _
      ⟨.i64,0,writeInt 8 result.success⟩ (put_writes _) "success") "Bench_bench_result"
    simpa [structBytes] using hbody
  · rw [if_neg h, if_neg h]
    exact writeBody_writes .pure _

/-! ## What is written is read back -/

/-- The members a `timing` can have: two `int64_t` and a string that can be written. -/
structure WireTiming.Writable (t : WireTiming) : Prop where
  msgid : Fits 8 t.msgid
  nanosec : Fits 8 t.nanosec
  source : t.source.length < 2 ^ 31

theorem i64_encodes (v : ℤ) : Encodes (room + 1) .i64 (writeInt 8 v) :=
  .scalar (by rw [writeInt_length]; rfl)

theorem WireTiming.Writable.fields {t : WireTiming} (h : t.Writable) :
    Fields (room + 1) t.fields where
  valid f hf := by
    simp only [WireTiming.fields, List.mem_cons, List.not_mem_nil, or_false] at hf
    rcases hf with rfl | rfl | rfl <;> exact ⟨trivial,by norm_num [Fits]⟩
  encodes f hf := by
    simp only [WireTiming.fields, List.mem_cons, List.not_mem_nil, or_false] at hf
    rcases hf with rfl | rfl | rfl
    · exact i64_encodes _
    · exact i64_encodes _
    · exact .string h.source

theorem lastValue_fields (t : WireTiming) :
    lastValue 1 .i64 t.fields = some (writeInt 8 t.msgid) ∧
    lastValue 2 .i64 t.fields = some (writeInt 8 t.nanosec) ∧
    lastValue 3 .string t.fields = some (writeInt 4 t.source.length ++ t.source) := by
  refine ⟨?_,?_,?_⟩ <;> simp [lastValue, WireTiming.fields]

theorem elim_of_some {β : Type} {o : Option (List UInt8)} {bytes : List UInt8} {f : List UInt8 → β}
    {v : β} (h : o = some bytes) (hv : f bytes = v) (old : β) : o.elim old f = v := by
  rw [h]
  exact hv

theorem WireTiming.Writable.after {t : WireTiming} (h : t.Writable) (u : WireTiming) :
    u.after t.fields = { t with isset := ⟨true,true,true⟩ } := by
  obtain ⟨h1,h2,h3⟩ := lastValue_fields t
  have hisset : ∀ {o : Option (List UInt8)} {bytes : List UInt8}, o = some bytes → ∀ b : Bool,
      (b || o.isSome) = true := by
    rintro o bytes rfl b
    exact Bool.or_true b
  unfold WireTiming.after
  rw [elim_of_some h1 (toInt_writeInt h.msgid), elim_of_some h2 (toInt_writeInt h.nanosec),
    elim_of_some h3 (stringOf_writeInt t.source), hisset h1, hisset h2, hisset h3]

theorem BenchResult.fields_valid (result : BenchResult) : Fields (room + 1) result.fields where
  valid f hf := by
    unfold BenchResult.fields at hf
    split at hf
    · obtain rfl := List.mem_singleton.mp hf
      exact ⟨trivial,by norm_num [Fits]⟩
    · cases hf
  encodes f hf := by
    unfold BenchResult.fields at hf
    split at hf
    · obtain rfl := List.mem_singleton.mp hf
      exact i64_encodes _
    · cases hf

/-! ## Any struct, and only the whole of it -/

theorem readStruct_local {field : α → TType → ℤ → Reader Input α}
    (hfield : ∀ a type id, Local Input.extend (field a type id)) (fuel : ℕ) (a : α) :
    Local Input.extend (readStruct (documentedProtocol n) field fuel a) := by
  refine enter_local.bind (fun _ => Local.bind ?_ (fun a => leave_local.bind (fun _ => .pure a)))
  exact (Local.pure ()).bind (fun _ => (readFields_local readFieldBegin_local (.pure ()) hfield
    fuel a).bind (fun a => (Local.pure ()).bind (fun _ => .pure a)))

theorem member_local {β : Type} {f : Reader Input β} (hf : Local Input.extend f)
    (type expected : TType) (set : β → α) (a : α) : Local Input.extend
      (if type = expected then do let v ← f; return set v else do skipValue type; return a) := by
  split
  · exact hf.bind (fun v => .pure (set v))
  · exact (skipValue_local type).bind (fun _ => .pure a)

theorem timingRead_local (fuel : ℕ) (t : WireTiming) :
    Local Input.extend (timingRead (documentedProtocol n) fuel t) := by
  refine readStruct_local (fun t ftype fid => ?_) fuel t
  unfold timingField
  split
  · exact member_local (readInt_local 8) ftype .i64 _ t
  · split
    · exact member_local (readInt_local 8) ftype .i64 _ t
    · split
      · exact member_local readString_local ftype .string _ t
      · exact (skipValue_local ftype).bind (fun _ => .pure t)

/-- `timing::read` takes the last value of each member from any struct, keeps the members that
are missing and goes on behind the struct; on a struct that is cut off it throws. -/
theorem timing_read {T : TProtocol} {view : View T} (hdoc : Documented T view) {fs : List Field}
    (h : Fields 63 fs) {fuel : ℕ} (hfuel : fs.length < fuel) (t : WireTiming) {i : T.In}
    (hsmall : Small T (view.input i)) :
    (∀ rest, view.input i = ⟨structBytes fs ++ rest,0⟩ →
      ∃ j, (timingRead T fuel t).run i = some (t.after fs,j) ∧ view.input j = ⟨rest,0⟩) ∧
    (∀ part, part <+: structBytes fs → part ≠ structBytes fs → view.input i = ⟨part,0⟩ →
      (timingRead T fuel t).run i = none) := by
  have hreads := @timingRead_reads _ T.maxMessageSize _ h _ hfuel t
  have hreading := timingRead_reading hdoc fuel t
  constructor
  · intro rest hview
    apply hreading.some hsmall
    rw [hview]
    exact hreads rest 0 le_rfl
  · intro part hpart hshort hview
    apply hreading.none hsmall
    rw [hview]
    exact hreads.none_of_short (timingRead_local fuel t) hpart hshort le_rfl

/-- The source before the rest, a field of no member, and a `msgid` of another type before one
that is taken; the nanoseconds are missing. -/
def mixedFields : List Field :=
  [⟨.string,3,[0,0,0,2,104,105]⟩,⟨.list,9,[3,0,0,0,1,7]⟩,⟨.string,1,[0,0,0,0]⟩,
    ⟨.i64,1,[0,0,0,0,0,0,0,7]⟩]

theorem mixedFields_fields : Fields 63 mixedFields where
  valid f hf := by
    simp only [mixedFields, List.mem_cons, List.not_mem_nil, or_false] at hf
    rcases hf with rfl | rfl | rfl | rfl <;> exact ⟨trivial,by norm_num [Fits]⟩
  encodes f hf := by
    simp only [mixedFields, List.mem_cons, List.not_mem_nil, or_false] at hf
    rcases hf with rfl | rfl | rfl | rfl
    · exact @Encodes.string _ [104,105] (by norm_num)
    · refine @Encodes.list _ .byte [[7]] trivial (by norm_num) (fun item hitem => ?_)
      obtain rfl := List.mem_singleton.mp hitem
      exact .scalar rfl
    · exact @Encodes.string _ [] (by norm_num)
    · exact .scalar rfl

theorem timing_read_mixedFields : ∃ j, (timingRead (documentedProtocol 100) 5 ⟨0,6,[],
      ⟨false,false,false⟩⟩).run ⟨structBytes mixedFields ++ [1,2],0⟩ =
    some (⟨7,6,[104,105],⟨true,false,true⟩⟩,j) ∧ j = ⟨[1,2],0⟩ := by
  have hread := (timing_read (documentedProtocol_documented 100) mixedFields_fields
    (show mixedFields.length < 5 by decide) ⟨0,6,[],⟨false,false,false⟩⟩
    (i := ⟨structBytes mixedFields ++ [1,2],0⟩) (by unfold Small; decide)).1 [1,2] rfl
  exact hread

end RelayBench.ThriftWire
