import RelayBench.Zenoh.Thrift

/-! # Payloads on the wire

What the client, a relay and the sink do with one payload in `zenohbench/src/common.rs`. A
documented crate follows the compact protocol step by step, and there the bytes of a
`Timing` fit the buffers and are read back.
-/
namespace RelayBench.Zenoh
open CompactProtocol Varint
variable {T : ThriftCrate} {view : View T} {t : Timing}

/-! ## The loops' bodies -/

/-- Rust's `str::repeat`. -/
def repeatString (s : String) : ℕ → String
  | 0 => ""
  | n + 1 => s ++ repeatString s n

/-- The `source` of every message of `client_loop`. -/
def clientSource (payloadSize : ℕ) : String := repeatString "publisher " (payloadSize / 10)

/-- The bytes `client_loop` publishes for a message, none where an unwrap panics. -/
def clientPayload (T : ThriftCrate) (payloadSize : ℕ) (t : Timing) : Option (List UInt8) := do
  let channel := T.withCapacity 0 (payloadSize + 128)
  let proto ← writeTiming T t (T.newOutput channel)
  return T.writeBytes (T.outputChannel proto)

/-- What `relay_loop` publishes for a payload, none where an unwrap panics. -/
def relayPayload (T : ThriftCrate) (payloadSize : ℕ) (payload : List UInt8) :
    Option (List UInt8) := do
  let channel := T.withCapacity (payloadSize + 128) (payloadSize + 128)
  let channel := T.setReadableBytes channel payload
  let (t,inProto) ← readTiming T (payload.length + 1) (T.newInput channel)
  let outProto ← writeTiming T t (T.newOutput (T.inputChannel inProto))
  return T.writeBytes (T.outputChannel outProto)

/-- What `sink_loop` reads from a payload, none where the unwrap panics. -/
def sinkTiming (T : ThriftCrate) (payloadSize : ℕ) (payload : List UInt8) : Option Timing := do
  let channel := T.withCapacity (payloadSize + 128) 0
  let channel := T.setReadableBytes channel payload
  let (t,_) ← readTiming T (payload.length + 1) (T.newInput channel)
  return t

theorem follows_bind {A B C D : Type} {view : A → B} {view' : C → D} {x : Option A} {y : Option B}
    {f : A → Option C} {g : B → Option D} (h : Follows view x y)
    (hf : ∀ a, Follows view' (f a) (g (view a))) : Follows view' (x >>= f) (y >>= g) := by
  intro d hd
  obtain ⟨b,hb,hg⟩ := Option.bind_eq_some_iff.mp hd
  obtain ⟨a,rfl,rfl⟩ := h b hb
  exact hf a d hg

theorem writeTiming_follows (hdoc : Documented T view) (hmsgid : InI64 t.msgid)
    (hnanosec : InI64 t.nanosec) (hsource : (utf8 t.source).length < 2 ^ 32)
    (o : T.TCompactOutputProtocol) :
    Follows view.output (writeTiming T t o) (writeTiming documentedCrate t (view.output o)) := by
  unfold writeTiming
  refine follows_bind (hdoc.writeStructBegin _ _) (fun o => ?_)
  refine follows_bind (hdoc.writeFieldBegin _ _) (fun o => ?_)
  refine follows_bind (hdoc.writeI64 _ _ hmsgid) (fun o => ?_)
  refine follows_bind (hdoc.writeFieldEnd _) (fun o => ?_)
  refine follows_bind (hdoc.writeFieldBegin _ _) (fun o => ?_)
  refine follows_bind (hdoc.writeI64 _ _ hnanosec) (fun o => ?_)
  refine follows_bind (hdoc.writeFieldEnd _) (fun o => ?_)
  refine follows_bind (hdoc.writeFieldBegin _ _) (fun o => ?_)
  refine follows_bind (hdoc.writeString _ _ hsource) (fun o => ?_)
  refine follows_bind (hdoc.writeFieldEnd _) (fun o => ?_)
  refine follows_bind (hdoc.writeFieldStop _) (fun o => ?_)
  exact hdoc.writeStructEnd o

theorem follows_map {A B C D : Type} {view : A → B} {view' : C → D} {x : Option A} {y : Option B}
    {f : A → C} {g : B → D} (h : Follows view x y) (hf : ∀ a, view' (f a) = g (view a)) :
    Follows view' (x.map f) (y.map g) := by
  intro d hd
  obtain ⟨b,hb,rfl⟩ := Option.map_eq_some_iff.mp hd
  obtain ⟨a,rfl,rfl⟩ := h b hb
  exact ⟨f a,rfl,hf a⟩

theorem readValue_follows (hdoc : Documented T view) (type : TType) (id : ℤ) (fs : Fields)
    (i : T.TCompactInputProtocol) :
    Follows view.value (readValue T type id fs i)
      (readValue documentedCrate type id fs (view.input i)) := by
  unfold readValue
  split
  · exact follows_map (hdoc.readI64 i) (fun _ => rfl)
  split
  · exact follows_map (hdoc.readI64 i) (fun _ => rfl)
  split
  · exact follows_map (hdoc.readString i) (fun _ => rfl)
  · exact fun _ h => absurd h (by simp [documentedCrate])

theorem readField_follows (hdoc : Documented T view) (f : Field) (fs : Fields)
    (i : T.TCompactInputProtocol) :
    Follows view.value (readField T f fs i)
      (readField documentedCrate ⟨"",f.type,f.id⟩ fs (view.input i)) := by
  unfold readField
  dsimp only
  cases f.id with
  | none => exact fun _ h => absurd h (by simp)
  | some id =>
    simp only [Option.bind_eq_bind, Option.bind_some]
    refine follows_bind (readValue_follows hdoc f.type id fs i) (fun p => ?_)
    intro q hq
    obtain ⟨j,hj,hview⟩ := hdoc.readFieldEnd p.2 _ rfl
    refine ⟨(p.1,j),by simp [hj],?_⟩
    rw [← Option.some.inj hq]
    exact congrArg (Prod.mk p.1) hview

theorem readFields_follows (hdoc : Documented T view) (fuel : ℕ) (fs : Fields)
    (i : T.TCompactInputProtocol) :
    Follows view.value (readFields T fuel fs i)
      (readFields documentedCrate fuel fs (view.input i)) := by
  induction fuel generalizing fs i with
  | zero => exact fun _ h => absurd h (by simp [readFields])
  | succ fuel ih =>
    intro q hq
    rw [readFields] at hq ⊢
    cases hheader : (view.input i).readFieldBegin with
    | none => simp [documentedCrate, hheader] at hq
    | some p =>
      obtain ⟨⟨f,j⟩,hread,rfl⟩ := hdoc.readFieldBegin i p hheader
      have hheader' : documentedCrate.readFieldBegin (view.input i) =
        some (⟨"",f.type,f.id⟩,view.input j) := hheader
      rw [hheader'] at hq
      rw [hread]
      dsimp only at hq ⊢
      split at hq
      · rename_i hstop
        rw [if_pos hstop]
        exact ⟨(fs,j),rfl,Option.some.inj hq⟩
      · rename_i hstop
        rw [if_neg hstop]
        cases hfield : readField documentedCrate ⟨"",f.type,f.id⟩ fs (view.input j) with
        | none => simp [hfield] at hq
        | some p =>
          obtain ⟨⟨fs',j'⟩,hread',rfl⟩ := readField_follows hdoc f fs j p hfield
          rw [hfield] at hq
          rw [hread']
          exact ih fs' j' q hq

theorem readTiming_follows (hdoc : Documented T view) (fuel : ℕ) (i : T.TCompactInputProtocol) :
    Follows view.value (readTiming T fuel i)
      (readTiming documentedCrate fuel (view.input i)) := by
  unfold readTiming
  refine follows_bind (hdoc.readStructBegin i) (fun i => ?_)
  refine follows_bind (readFields_follows hdoc fuel _ i) (fun ⟨fs,i⟩ => ?_)
  refine follows_bind (hdoc.readStructEnd i) (fun i => ?_)
  dsimp only [View.value]
  cases fs.f1 with
  | none => exact fun _ h => absurd h (by simp)
  | some msgid =>
    cases fs.f2 with
    | none => exact fun _ h => absurd h (by simp)
    | some nanosec =>
      cases fs.f3 with
      | none => exact fun _ h => absurd h (by simp)
      | some source => exact fun q hq => ⟨_,rfl,Option.some.inj hq⟩

/-! ## The bytes of a message -/

/-- Three fields, each with a header of one byte, and the stop byte. -/
def wire (t : Timing) : List UInt8 :=
  [UInt8.ofNat 22] ++ (encode (zigzag t.msgid) ++ ([UInt8.ofNat 22] ++ (encode (zigzag t.nanosec) ++
    ([UInt8.ofNat 24] ++ ((encode (utf8 t.source).length ++ utf8 t.source) ++ [0])))))

theorem writeTiming_wire {c : Cursor} (hroom : c.Room (wire t).length) :
    ∃ d, writeTiming documentedCrate t c = some d ∧ Wrote c (wire t) d := by
  have h0 : Wrote c [] c.structBegin := ⟨by simp [Cursor.structBegin],rfl,rfl⟩
  unfold wire at *
  simp only [List.length_append, List.length_singleton] at hroom
  obtain ⟨c1,e1,h1,l1,s1,r1⟩ := @writeFieldBegin_next c.structBegin ⟨"msgid",.i64,some 1⟩ 6 _
    rfl rfl hroom
  obtain ⟨c2,e2,h2,l2,s2,r2⟩ := put_wrote r1
  obtain ⟨c3,e3,h3,l3,s3,r3⟩ := @writeFieldBegin_next c2 ⟨"nanosec",.i64,some 2⟩ 6 _ rfl
    (by rw [l2, l1]; rfl) r2
  obtain ⟨c4,e4,h4,l4,s4,r4⟩ := put_wrote r3
  obtain ⟨c5,e5,h5,l5,s5,r5⟩ := @writeFieldBegin_next c4 ⟨"source",.string,some 3⟩ 8 _ rfl
    (by rw [l4, l3, l2, l1]; rfl) r4
  obtain ⟨c6,e6,h6,l6,s6,r6⟩ := @put_wrote c5 (encode (utf8 t.source).length ++ utf8 t.source) 1
    (by rw [List.length_append]; exact r5)
  obtain ⟨c7,e7,h7,l7,s7,_⟩ := @put_wrote c6 [0] 0 r6
  have hsaved : c7.saved = [c.lastField] ++ c.saved := by rw [s7, s6, s5, s4, s3, s2, s1]; rfl
  have hend : c7.structEnd = some { c7 with lastField := c.lastField, saved := c.saved } := by
    rw [Cursor.structEnd, hsaved]
    rfl
  have hall := h0.trans (h1.trans (h2.trans (h3.trans (h4.trans (h5.trans (h6.trans h7))))))
  refine ⟨{ c7 with lastField := c.lastField, saved := c.saved },?_,
    ⟨hall.bytes,hall.capacity,hall.input⟩⟩
  simp only [writeTiming, Cursor.writeI64, Cursor.writeString, Cursor.writeFieldStop,
    Option.bind_eq_bind, Option.bind_some, e1, e2, e3, e4, e5, e6, e7, hend]

theorem readFields_step {fuel : ℕ} {fs fs' : Fields} {c c' d : Cursor} {f : Field}
    (hheader : c.readFieldBegin = some (f,c')) (hstop : f.type ≠ .stop)
    (hfield : readField documentedCrate f fs c' = some (fs',d)) :
    readFields documentedCrate (fuel + 1) fs c = readFields documentedCrate fuel fs' d := by
  have hheader' : documentedCrate.readFieldBegin c = some (f,c') := hheader
  rw [readFields, hheader']
  dsimp only
  rw [if_neg hstop, hfield]

theorem readFields_stop {fuel : ℕ} {fs : Fields} {c : Cursor} {rest : List UInt8}
    (h : c.unread = 0 :: rest) :
    readFields documentedCrate (fuel + 1) fs c = some (fs,c.keep rest) := by
  have hheader : documentedCrate.readFieldBegin c = some (⟨"",.stop,none⟩,c.keep rest) :=
    readFieldBegin_stop h
  rw [readFields, hheader]
  exact if_pos rfl

theorem zigzag_lt_of_inI64 {v : ℤ} (h : InI64 v) : zigzag v < 2 ^ 64 := zigzag_lt h.1 h.2

theorem readFields_wire {c : Cursor} {rest : List UInt8} {fuel : ℕ} (hmsgid : InI64 t.msgid)
    (hnanosec : InI64 t.nanosec) (hsource : (utf8 t.source).length < 2 ^ 32)
    (hlast : c.lastField = 0) (h : c.unread = wire t ++ rest) :
    readFields documentedCrate (fuel + 4) ⟨none,none,none⟩ c =
      some (⟨some t.msgid,some t.nanosec,some t.source⟩,(c.keep rest).atField 3) := by
  -- `yk` are the bytes after field `k`, `xk` those after its header
  generalize hy3 : (0 : UInt8) :: rest = y3
  generalize hx3 : encode (utf8 t.source).length ++ (utf8 t.source ++ y3) = x3
  generalize hy2 : UInt8.ofNat 24 :: x3 = y2
  generalize hx2 : encode (zigzag t.nanosec) ++ y2 = x2
  generalize hy1 : UInt8.ofNat 22 :: x2 = y1
  generalize hx1 : encode (zigzag t.msgid) ++ y1 = x1
  have h0 : c.unread = UInt8.ofNat 22 :: x1 := by
    simp [h, wire, ← hx1, ← hy1, ← hx2, ← hy2, ← hx3, ← hy3]
  have hle1 : x1.length ≤ c.unread.length := by simp [h0]
  have hle2 : y1.length ≤ c.unread.length := by
    rw [← hx1, List.length_append] at hle1
    omega
  have hle3 : x2.length ≤ c.unread.length := by
    rw [← hy1, List.length_cons] at hle2
    omega
  have hle4 : y2.length ≤ c.unread.length := by
    rw [← hx2, List.length_append] at hle3
    omega
  have hle5 : x3.length ≤ c.unread.length := by
    rw [← hy2, List.length_cons] at hle4
    omega
  have hle6 : y3.length ≤ c.unread.length := by
    rw [← hx3, List.length_append, List.length_append] at hle5
    omega
  have header1 := @readFieldBegin_next c .i64 6 x1 rfl (by decide) h0
  rw [hlast] at header1
  have value1 := @readI64_encode ((c.keep x1).atField 1) t.msgid y1 (zigzag_lt_of_inI64 hmsgid)
    (by rw [atField_unread hle1, hx1])
  have header2 := @readFieldBegin_next ((c.keep y1).atField 1) .i64 6 x2 rfl (by decide)
    (by rw [atField_unread hle2, hy1])
  have value2 := @readI64_encode ((c.keep x2).atField 2) t.nanosec y2
    (zigzag_lt_of_inI64 hnanosec) (by rw [atField_unread hle3, hx2])
  have header3 := @readFieldBegin_next ((c.keep y2).atField 2) .string 8 x3 rfl (by decide)
    (by rw [atField_unread hle4, hy2])
  have value3 := @readString_encode ((c.keep x3).atField 3) t.source y3 hsource
    (by rw [atField_unread hle5, hx3])
  have field1 : readField documentedCrate ⟨"",.i64,some (0 + 1)⟩ ⟨none,none,none⟩
      ((c.keep x1).atField (0 + 1)) = some (⟨some t.msgid,none,none⟩,(c.keep y1).atField 1) := by
    simp only [readField, readValue, Option.bind_eq_bind, Option.bind_some, zero_add, if_true,
      value1, Option.map_some]
    rfl
  have field2 : readField documentedCrate ⟨"",.i64,some (1 + 1)⟩ ⟨some t.msgid,none,none⟩
      ((c.keep x2).atField (1 + 1)) =
        some (⟨some t.msgid,some t.nanosec,none⟩,(c.keep y2).atField 2) := by
    simp only [readField, readValue, Option.bind_eq_bind, Option.bind_some, Int.reduceAdd,
      Int.reduceEq, if_false, if_true, value2, Option.map_some]
    rfl
  have field3 : readField documentedCrate ⟨"",.string,some (2 + 1)⟩
      ⟨some t.msgid,some t.nanosec,none⟩ ((c.keep x3).atField (2 + 1)) =
        some (⟨some t.msgid,some t.nanosec,some t.source⟩,(c.keep y3).atField 3) := by
    simp only [readField, readValue, Option.bind_eq_bind, Option.bind_some, Int.reduceAdd,
      Int.reduceEq, if_false, if_true, value3, Option.map_some]
    rfl
  rw [readFields_step header1 (by simp) field1, readFields_step header2 (by simp) field2,
    readFields_step header3 (by simp) field3,
    @readFields_stop _ _ _ rest (by rw [atField_unread hle6, hy3])]
  rfl

/-- The bytes of a message are read back as the message. -/
theorem readTiming_wire {c : Cursor} {rest : List UInt8} {fuel : ℕ} (hmsgid : InI64 t.msgid)
    (hnanosec : InI64 t.nanosec) (hsource : (utf8 t.source).length < 2 ^ 32) (hfuel : 4 ≤ fuel)
    (h : c.unread = wire t ++ rest) :
    readTiming documentedCrate fuel c = some (t,c.keep rest) := by
  obtain ⟨k,rfl⟩ := Nat.exists_eq_add_of_le' hfuel
  have hfields := @readFields_wire t c.structBegin rest k hmsgid hnanosec hsource rfl h
  simp only [readTiming, Option.bind_eq_bind, Option.bind_some, hfields]
  rfl

/-! ## Room in the buffers -/

theorem wire_length (hmsgid : InI64 t.msgid) (hnanosec : InI64 t.nanosec)
    (hsource : (utf8 t.source).length < 2 ^ 32) :
    4 ≤ (wire t).length ∧ (wire t).length ≤ (utf8 t.source).length + 29 := by
  have h1 : (encode (zigzag t.msgid)).length ≤ 10 :=
    encode_length_le ((zigzag_lt_of_inI64 hmsgid).trans (by norm_num))
  have h2 : (encode (zigzag t.nanosec)).length ≤ 10 :=
    encode_length_le ((zigzag_lt_of_inI64 hnanosec).trans (by norm_num))
  have h3 : (encode (utf8 t.source).length).length ≤ 5 :=
    encode_length_le (hsource.trans (by norm_num))
  simp only [wire, List.length_append, List.length_singleton]
  omega

theorem repeatString_length (s : String) (n : ℕ) :
    (utf8 (repeatString s n)).length = n * (utf8 s).length := by
  induction n with
  | zero => simp [repeatString, utf8]
  | succ n ih =>
    have happend : utf8 (s ++ repeatString s n) = utf8 s ++ utf8 (repeatString s n) := by
      simp [utf8, String.toByteArray_append]
    rw [repeatString, happend, List.length_append, ih]
    ring

theorem clientSource_length (payloadSize : ℕ) :
    (utf8 (clientSource payloadSize)).length ≤ payloadSize := by
  have hten : (utf8 "publisher ").length = 10 := by decide
  rw [clientSource, repeatString_length, hten]
  omega

end RelayBench.Zenoh
