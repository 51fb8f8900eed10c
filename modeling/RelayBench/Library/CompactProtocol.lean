import RelayBench.Library.Varint

/-! # The compact protocol over a pair of bounded buffers

A channel has a buffer to read from and a buffer to write to. Filling the first truncates
silently, writing to the second fails when there is no room. A cursor writes or reads a
struct over a channel; field ids are written as differences from the last one.
-/
namespace RelayBench.CompactProtocol
open Varint

/-! ## Channels -/

structure Buffer where
  capacity : ℕ
  bytes : List UInt8
  fits : bytes.length ≤ capacity
deriving DecidableEq

def Buffer.empty (capacity : ℕ) : Buffer := ⟨capacity,[],Nat.zero_le _⟩

def Buffer.fill (b : Buffer) (bytes : List UInt8) : Buffer :=
  ⟨b.capacity,bytes.take b.capacity,List.length_take_le _ _⟩

def Buffer.append (b : Buffer) (bytes : List UInt8) : Option Buffer :=
  if h : (b.bytes ++ bytes).length ≤ b.capacity then some ⟨b.capacity,b.bytes ++ bytes,h⟩
  else none

structure Channel where
  input : Buffer
  output : Buffer
deriving DecidableEq

def Channel.withCapacity (read write : ℕ) : Channel := ⟨.empty read,.empty write⟩

def Channel.setReadableBytes (c : Channel) (bytes : List UInt8) : Channel :=
  { c with input := c.input.fill bytes }

/-! ## Cursors -/

/-- The types of the fields that are read and written; other codes are left out. -/
inductive TType
  | stop
  | i64
  | string
  | other
deriving DecidableEq, Repr

def TType.code : TType → Option ℕ
  | .stop => some 0
  | .i64 => some 6
  | .string => some 8
  | .other => none

def TType.ofCode (code : ℕ) : Option TType :=
  if code = 0 then some .stop
  else if code = 6 then some .i64
  else if code = 8 then some .string
  else none

structure Field where
  name : String
  type : TType
  id : Option ℤ
deriving DecidableEq, Repr

structure Cursor where
  channel : Channel
  lastField : ℤ
  saved : List ℤ
deriving DecidableEq

def Cursor.new (c : Channel) : Cursor := ⟨c,0,[]⟩

def Cursor.structBegin (c : Cursor) : Cursor :=
  { c with lastField := 0, saved := c.lastField :: c.saved }

def Cursor.structEnd (c : Cursor) : Option Cursor :=
  match c.saved with
  | [] => none
  | f :: fs => some { c with lastField := f, saved := fs }

def Cursor.atField (c : Cursor) (id : ℤ) : Cursor := { c with lastField := id }

/-! ## Writing -/

def Cursor.put (c : Cursor) (bytes : List UInt8) : Option Cursor :=
  (c.channel.output.append bytes).map (fun b => { c with channel := { c.channel with output := b } })

/-- One byte for a difference below 15, else the type and the id. -/
def Cursor.writeFieldBegin (c : Cursor) (f : Field) : Option Cursor := do
  let id ← f.id
  let code ← f.type.code
  if c.lastField < id ∧ id < c.lastField + 15 then
    (c.atField id).put [UInt8.ofNat ((id - c.lastField).toNat * 16 + code)]
  else (c.atField id).put (UInt8.ofNat code :: encode (zigzag id))

def Cursor.writeFieldStop (c : Cursor) : Option Cursor := c.put [0]

def Cursor.writeI64 (c : Cursor) (v : ℤ) : Option Cursor := c.put (encode (zigzag v))

def utf8 (s : String) : List UInt8 := s.toByteArray.data.toList

def Cursor.writeString (c : Cursor) (s : String) : Option Cursor :=
  c.put (encode (utf8 s).length ++ utf8 s)

/-! ## Reading -/

def Cursor.unread (c : Cursor) : List UInt8 := c.channel.input.bytes

/-- Go on to the bytes that are left. -/
def Cursor.keep (c : Cursor) (rest : List UInt8) : Cursor :=
  { c with channel := c.channel.setReadableBytes rest }

/-- A varint of this many bits, in as many bytes as they need at most. -/
def Cursor.readVarint (c : Cursor) (bits : ℕ) : Option (ℕ × Cursor) :=
  match decode c.unread with
  | none => none
  | some (n,rest) =>
    if n < 2 ^ bits ∧ c.unread.length ≤ rest.length + (bits + 6) / 7 then some (n,c.keep rest)
    else none

def Cursor.readFieldBegin (c : Cursor) : Option (Field × Cursor) :=
  match c.unread with
  | [] => none
  | b :: rest =>
    match TType.ofCode (b.toNat % 16) with
    | none => none
    | some .stop => some (⟨"",.stop,none⟩,c.keep rest)
    | some type =>
      if b.toNat / 16 ≠ 0 then
        let id := c.lastField + (b.toNat / 16 : ℕ)
        some (⟨"",type,some id⟩,(c.keep rest).atField id)
      else ((c.keep rest).readVarint 16).map (fun (n,c) =>
        (⟨"",type,some (unzigzag n)⟩,c.atField (unzigzag n)))

def Cursor.readI64 (c : Cursor) : Option (ℤ × Cursor) :=
  (c.readVarint 64).map (fun (n,c) => (unzigzag n,c))

def Cursor.readString (c : Cursor) : Option (String × Cursor) :=
  match c.readVarint 32 with
  | none => none
  | some (n,c) =>
    if n ≤ c.unread.length then
      (String.fromUTF8? ⟨(c.unread.take n).toArray⟩).map (fun s => (s,c.keep (c.unread.drop n)))
    else none

/-! ## What is written is read back -/

/-- The channel after writing. -/
structure Wrote (c : Cursor) (bytes : List UInt8) (d : Cursor) : Prop where
  bytes : d.channel.output.bytes = c.channel.output.bytes ++ bytes
  capacity : d.channel.output.capacity = c.channel.output.capacity
  input : d.channel.input = c.channel.input

/-- There is room for this many bytes. -/
def Cursor.Room (c : Cursor) (n : ℕ) : Prop :=
  c.channel.output.bytes.length + n ≤ c.channel.output.capacity

theorem Wrote.room {c d : Cursor} {xs : List UInt8} {n : ℕ} (h : Wrote c xs d)
    (hroom : c.Room (xs.length + n)) : d.Room n := by
  unfold Cursor.Room at *
  rw [h.bytes, h.capacity, List.length_append]
  omega

theorem Wrote.trans {c d e : Cursor} {xs ys : List UInt8} (h : Wrote c xs d) (hk : Wrote d ys e) :
    Wrote c (xs ++ ys) e := by
  refine ⟨?_,hk.capacity.trans h.capacity,hk.input.trans h.input⟩
  rw [hk.bytes, h.bytes, List.append_assoc]

theorem put_wrote {c : Cursor} {bytes : List UInt8} {n : ℕ} (hroom : c.Room (bytes.length + n)) :
    ∃ d, c.put bytes = some d ∧ Wrote c bytes d ∧ d.lastField = c.lastField ∧
      d.saved = c.saved ∧ d.Room n := by
  have hfits : (c.channel.output.bytes ++ bytes).length ≤ c.channel.output.capacity := by
    unfold Cursor.Room at hroom
    rw [List.length_append]
    omega
  have hwrote : Wrote c bytes { c with channel := { c.channel with
      output := ⟨c.channel.output.capacity,c.channel.output.bytes ++ bytes,hfits⟩ } } :=
    ⟨rfl,rfl,rfl⟩
  unfold Cursor.put Buffer.append
  rw [dif_pos hfits]
  exact ⟨_,rfl,hwrote,rfl,rfl,hwrote.room hroom⟩

/-- The header of a field whose id follows the last one. -/
theorem writeFieldBegin_next {c : Cursor} {f : Field} {code n : ℕ}
    (hcode : f.type.code = some code) (hid : f.id = some (c.lastField + 1))
    (hroom : c.Room (1 + n)) :
    ∃ d, c.writeFieldBegin f = some d ∧ Wrote c [UInt8.ofNat (16 + code)] d ∧
      d.lastField = c.lastField + 1 ∧ d.saved = c.saved ∧ d.Room n := by
  obtain ⟨d,hput,hwrote,hlast,hsaved,hroom'⟩ :=
    @put_wrote (c.atField (c.lastField + 1)) [UInt8.ofNat (16 + code)] n hroom
  refine ⟨d,?_,⟨hwrote.bytes,hwrote.capacity,hwrote.input⟩,hlast,hsaved,hroom'⟩
  unfold Cursor.writeFieldBegin
  simpa [hid, hcode] using hput

/-- The cursor that has gone on to these bytes, in the struct's field `id`. -/
theorem atField_unread {c : Cursor} {rest : List UInt8} {id : ℤ}
    (h : rest.length ≤ c.unread.length) : ((c.keep rest).atField id).unread = rest :=
  List.take_of_length_le (h.trans c.channel.input.fits)

theorem keep_unread {c : Cursor} {rest : List UInt8} (h : rest.length ≤ c.unread.length) :
    (c.keep rest).unread = rest :=
  List.take_of_length_le (h.trans c.channel.input.fits)

theorem fromUTF8?_utf8 (s : String) : String.fromUTF8? ⟨(utf8 s).toArray⟩ = some s := by
  have hbytes : (⟨(utf8 s).toArray⟩ : ByteArray) = s.toByteArray := by simp [utf8]
  rw [hbytes]
  simp [String.fromUTF8?, s.isValidUTF8, String.fromUTF8]

theorem readVarint_encode {c : Cursor} {bits n : ℕ} {rest : List UInt8} (hn : n < 2 ^ bits)
    (hbits : 0 < bits) (h : c.unread = encode n ++ rest) :
    c.readVarint bits = some (n,c.keep rest) := by
  have hlength : (encode n).length ≤ (bits + 6) / 7 := by
    obtain ⟨k,hk⟩ : ∃ k, (bits + 6) / 7 = k + 1 := ⟨(bits + 6) / 7 - 1,by omega⟩
    rw [hk]
    exact encode_length_le (hn.trans_le (Nat.pow_le_pow_right (by norm_num) (by omega)))
  rw [Cursor.readVarint, h, decode_encode]
  dsimp only
  rw [if_pos ⟨hn,by rw [List.length_append]; omega⟩]

theorem readI64_encode {c : Cursor} {v : ℤ} {rest : List UInt8} (hv : zigzag v < 2 ^ 64)
    (h : c.unread = encode (zigzag v) ++ rest) : c.readI64 = some (v,c.keep rest) := by
  rw [Cursor.readI64, readVarint_encode hv (by norm_num) h]
  simp [unzigzag_zigzag]

theorem keep_keep {c : Cursor} {xs ys : List UInt8} : (c.keep xs).keep ys = c.keep ys := rfl

theorem readFieldBegin_stop {c : Cursor} {rest : List UInt8} (h : c.unread = 0 :: rest) :
    c.readFieldBegin = some (⟨"",.stop,none⟩,c.keep rest) := by
  rw [Cursor.readFieldBegin, h]
  rfl

theorem readFieldBegin_next {c : Cursor} {type : TType} {code : ℕ} {rest : List UInt8}
    (hcode : type.code = some code) (hstop : type ≠ .stop)
    (h : c.unread = UInt8.ofNat (16 + code) :: rest) :
    c.readFieldBegin = some (⟨"",type,some (c.lastField + 1)⟩,
      (c.keep rest).atField (c.lastField + 1)) := by
  rw [Cursor.readFieldBegin, h]
  cases type with
  | stop => exact absurd rfl hstop
  | other => simp [TType.code] at hcode
  | i64 | string =>
    obtain rfl := Option.some.inj hcode
    rfl

theorem readString_encode {c : Cursor} {s : String} {rest : List UInt8}
    (hs : (utf8 s).length < 2 ^ 32) (h : c.unread = encode (utf8 s).length ++ (utf8 s ++ rest)) :
    c.readString = some (s,c.keep rest) := by
  have hkeep : (c.keep (utf8 s ++ rest)).unread = utf8 s ++ rest := by
    apply keep_unread
    simp only [h, List.length_append]
    omega
  rw [Cursor.readString, readVarint_encode hs (by norm_num) h]
  dsimp only
  rw [hkeep, if_pos (by simp), List.take_left' rfl, List.drop_left' rfl, fromUTF8?_utf8, keep_keep]
  rfl

end RelayBench.CompactProtocol
