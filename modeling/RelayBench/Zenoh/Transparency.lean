import RelayBench.Zenoh.Wire

/-! # Relays pass payloads on unchanged

With a documented crate and buffers of `PAYLOAD_SIZE + 128` bytes, the client's bytes are
the whole encoding of its message, a relay publishes the bytes it received, and the sink
reads the client's message.
-/
namespace RelayBench.Zenoh
open CompactProtocol Varint
variable {T : ThriftCrate} {view : View T} {t : Timing} {payloadSize : ℕ}

/-- What the loops rely on: the fields are in range and the source fits the payload size. -/
structure Sendable (payloadSize : ℕ) (t : Timing) : Prop where
  size : payloadSize < 2 ^ 32
  msgid : InI64 t.msgid
  nanosec : InI64 t.nanosec
  source : (utf8 t.source).length ≤ payloadSize

theorem Sendable.small (h : Sendable payloadSize t) : (utf8 t.source).length < 2 ^ 32 :=
  h.source.trans_lt h.size

theorem Sendable.fits (h : Sendable payloadSize t) : (wire t).length ≤ payloadSize + 128 := by
  have hlength := (wire_length h.msgid h.nanosec h.small).2
  have hsource := h.source
  omega

/-- Writing into a fresh write buffer leaves the bytes of the message in it. -/
theorem written_wire (hdoc : Documented T view) (h : Sendable payloadSize t)
    {c : T.TBufferChannel} (hempty : (view.channel c).output = .empty (payloadSize + 128)) :
    ∃ o, writeTiming T t (T.newOutput c) = some o ∧
      T.writeBytes (T.outputChannel o) = wire t := by
  have hroom : (view.output (T.newOutput c)).Room (wire t).length := by
    rw [hdoc.newOutput]
    simp only [Cursor.Room, Cursor.new, hempty, Buffer.empty, List.length_nil, zero_add]
    exact h.fits
  obtain ⟨d,hwrite,hwrote⟩ := writeTiming_wire hroom
  obtain ⟨o,ho,hview⟩ := writeTiming_follows hdoc h.msgid h.nanosec h.small (T.newOutput c) d hwrite
  refine ⟨o,ho,?_⟩
  rw [hdoc.writeBytes, hdoc.outputChannel, hview, hwrote.bytes, hdoc.newOutput]
  simp [Cursor.new, hempty, Buffer.empty]

/-- Reading the bytes of the message gives the message and leaves the write buffer alone. -/
theorem read_wire (hdoc : Documented T view) (h : Sendable payloadSize t) (write : ℕ) :
    ∃ i, readTiming T ((wire t).length + 1) (T.newInput
        (T.setReadableBytes (T.withCapacity (payloadSize + 128) write) (wire t))) = some (t,i) ∧
      (view.channel (T.inputChannel i)).output = .empty write := by
  have hunread : (view.input (T.newInput (T.setReadableBytes
      (T.withCapacity (payloadSize + 128) write) (wire t)))).unread = wire t ++ [] := by
    rw [hdoc.newInput, hdoc.setReadableBytes, hdoc.withCapacity, List.append_nil]
    exact List.take_of_length_le h.fits
  have hfuel : 4 ≤ (wire t).length + 1 := by
    have := (wire_length h.msgid h.nanosec h.small).1
    omega
  obtain ⟨⟨t',i⟩,hread,hview⟩ := readTiming_follows hdoc ((wire t).length + 1) _ _
    (readTiming_wire h.msgid h.nanosec h.small hfuel hunread)
  simp only [View.value, Prod.mk.injEq] at hview
  obtain ⟨rfl,hinput⟩ := hview
  refine ⟨i,hread,?_⟩
  rw [hdoc.inputChannel, hinput, hdoc.newInput, hdoc.setReadableBytes, hdoc.withCapacity]
  rfl

theorem clientPayload_wire (hdoc : Documented T view) (h : Sendable payloadSize t) :
    clientPayload T payloadSize t = some (wire t) := by
  obtain ⟨o,ho,hbytes⟩ := written_wire hdoc h (c := T.withCapacity 0 (payloadSize + 128))
    (by rw [hdoc.withCapacity]; rfl)
  simp [clientPayload, ho, hbytes]

theorem relayPayload_wire (hdoc : Documented T view) (h : Sendable payloadSize t) :
    relayPayload T payloadSize (wire t) = some (wire t) := by
  obtain ⟨i,hi,hempty⟩ := read_wire hdoc h (payloadSize + 128)
  obtain ⟨o,ho,hbytes⟩ := written_wire hdoc h hempty
  simp [relayPayload, hi, ho, hbytes]

theorem sinkTiming_wire (hdoc : Documented T view) (h : Sendable payloadSize t) :
    sinkTiming T payloadSize (wire t) = some t := by
  obtain ⟨i,hi,_⟩ := read_wire hdoc h 0
  simp [sinkTiming, hi]

theorem follows_self {A : Type} (x : Option A) : Follows id x x := fun a h => ⟨a,h,rfl⟩

theorem readFieldBegin_name {c d : Cursor} {f : Field} (h : c.readFieldBegin = some (f,d)) :
    f.name = "" := by
  unfold Cursor.readFieldBegin at h
  split at h
  · cases h
  · split at h
    · cases h
    · cases h
      rfl
    · dsimp only at h
      split at h
      · cases h
        rfl
      · obtain ⟨p,_,hp⟩ := Option.map_eq_some_iff.mp h
        cases hp
        rfl

theorem documentedCrate_documented : Documented documentedCrate ⟨id,id,id⟩ where
  withCapacity _ _ := rfl
  setReadableBytes _ _ := rfl
  writeBytes _ := rfl
  newOutput _ := rfl
  outputChannel _ := rfl
  newInput _ := rfl
  inputChannel _ := rfl
  writeStructBegin _ _ := follows_self _
  writeStructEnd _ := follows_self _
  writeFieldBegin _ _ := follows_self _
  writeFieldEnd _ := follows_self _
  writeFieldStop _ := follows_self _
  writeI64 _ _ _ := follows_self _
  writeString _ _ _ := follows_self _
  readStructBegin _ := follows_self _
  readStructEnd _ := follows_self _
  readFieldBegin c := by
    rintro ⟨f,d⟩ h
    refine ⟨(f,d),h,?_⟩
    have hname := readFieldBegin_name h
    cases f
    simp only at hname
    subst hname
    rfl
  readFieldEnd _ := follows_self _
  readI64 _ := follows_self _
  readString _ := follows_self _

end RelayBench.Zenoh
