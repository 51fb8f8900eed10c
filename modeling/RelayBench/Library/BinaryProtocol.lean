import RelayBench.Library.Readers

/-! # The binary protocol of messages, structs and fields

Numbers are big-endian. A field is its type, its id and its value, and a struct is its fields up
to a stop byte. A value is read back only by one who knows its type; `skip` goes past any value,
nested no deeper than the recursion limit. `Encodes` says which bytes are a value of a type.
-/
namespace RelayBench.BinaryProtocol
open Readers

/-! ## Numbers -/

def bigEndian : ℕ → ℕ → List UInt8
  | 0, _ => []
  | k + 1, n => bigEndian k (n / 256) ++ [UInt8.ofNat n]

def ofBigEndian (bytes : List UInt8) : ℕ := bytes.foldl (fun n b => n * 256 + b.toNat) 0

/-- An integer in `k` bytes, in two's complement. -/
def writeInt (k : ℕ) (v : ℤ) : List UInt8 := bigEndian k (v % 256 ^ k).toNat

def toInt (bytes : List UInt8) : ℤ := (ofBigEndian bytes : ℤ).bmod (256 ^ bytes.length)

/-- The integers of `k` bytes. -/
def Fits (k : ℕ) (v : ℤ) : Prop := -256 ^ k ≤ 2 * v ∧ 2 * v < 256 ^ k

@[simp] theorem bigEndian_length (k n : ℕ) : (bigEndian k n).length = k := by
  induction k generalizing n with
  | zero => rfl
  | succ k ih => simp [bigEndian, ih]

@[simp] theorem writeInt_length (k : ℕ) (v : ℤ) : (writeInt k v).length = k :=
  bigEndian_length _ _

theorem ofBigEndian_bigEndian {k n : ℕ} (h : n < 256 ^ k) : ofBigEndian (bigEndian k n) = n := by
  induction k generalizing n with
  | zero =>
    obtain rfl : n = 0 := by simpa using h
    rfl
  | succ k ih =>
    have hdiv : n / 256 < 256 ^ k := by
      rw [Nat.div_lt_iff_lt_mul (by norm_num)]
      rwa [pow_succ] at h
    have hlow : (UInt8.ofNat n).toNat = n % 256 := by simp
    have hhigh := ih hdiv
    unfold ofBigEndian at hhigh ⊢
    rw [bigEndian, List.foldl_append, hhigh, List.foldl_cons, List.foldl_nil, hlow]
    omega

theorem toInt_writeInt {k : ℕ} {v : ℤ} (h : Fits k v) : toInt (writeInt k v) = v := by
  have hpos : (0 : ℤ) < 256 ^ k := by positivity
  have hnonneg := Int.emod_nonneg v hpos.ne'
  have hlt := Int.emod_lt_of_pos v hpos
  have hn : (v % 256 ^ k).toNat < 256 ^ k := by
    have hcast : ((256 ^ k : ℕ) : ℤ) = 256 ^ k := by push_cast; rfl
    omega
  have hcast : ((v % 256 ^ k).toNat : ℤ) = v % ((256 ^ k : ℕ) : ℤ) := by
    push_cast
    exact Int.toNat_of_nonneg hnonneg
  rw [toInt, writeInt_length, writeInt, ofBigEndian_bigEndian hn, hcast, Int.emod_bmod]
  obtain ⟨hlo,hhi⟩ := h
  apply Int.bmod_eq_of_le_mul_two
  · push_cast
    omega
  · push_cast
    omega

/-! ## Types -/

inductive TType
  | stop
  | void
  | bool
  | byte
  | double
  | i16
  | i32
  | i64
  | string
  | struct
  | map
  | set
  | list
  | unknown (code : UInt8)
deriving DecidableEq, Repr

def TType.code : TType → UInt8
  | .stop => 0
  | .void => 1
  | .bool => 2
  | .byte => 3
  | .double => 4
  | .i16 => 6
  | .i32 => 8
  | .i64 => 10
  | .string => 11
  | .struct => 12
  | .map => 13
  | .set => 14
  | .list => 15
  | .unknown code => code

def TType.ofCode (code : UInt8) : TType :=
  match [TType.stop,.void,.bool,.byte,.double,.i16,.i32,.i64,.string,.struct,.map,.set,.list].find?
      (fun type => type.code = code) with
  | some type => type
  | none => .unknown code

/-- The types whose values all take the same number of bytes. -/
def TType.width : TType → Option ℕ
  | .bool => some 1
  | .byte => some 1
  | .i16 => some 2
  | .i32 => some 4
  | .i64 => some 8
  | .double => some 8
  | _ => none

/-- The types that values can have. -/
def TType.Known : TType → Prop
  | .stop => False
  | .void => False
  | .unknown _ => False
  | _ => True

theorem ofCode_code {type : TType} (h : type.Known) : TType.ofCode type.code = type := by
  cases type <;> first | rfl | exact absurd h id

inductive TMessageType
  | call
  | reply
  | exception
  | oneway
  | unknown (code : UInt8)
deriving DecidableEq, Repr

def TMessageType.code : TMessageType → UInt8
  | .call => 1
  | .reply => 2
  | .exception => 3
  | .oneway => 4
  | .unknown code => code

def TMessageType.ofCode (code : UInt8) : TMessageType :=
  if code = 1 then .call
  else if code = 2 then .reply
  else if code = 3 then .exception
  else if code = 4 then .oneway
  else .unknown code

/-! ## Reading -/

/-- The bytes that have arrived and the structs that are open. -/
structure Input where
  unread : List UInt8
  depth : ℕ
deriving DecidableEq, Repr

def Input.extend (i : Input) (bytes : List UInt8) : Input := { i with unread := i.unread ++ bytes }

def recursionLimit : ℕ := 64

def enter : Reader Input Unit := fun i =>
  if i.depth < recursionLimit then some ((),{ i with depth := i.depth + 1 }) else none

def leave : Reader Input Unit := fun i => some ((),{ i with depth := i.depth - 1 })

def take (k : ℕ) : Reader Input (List UInt8) := fun i =>
  if k ≤ i.unread.length then some (i.unread.take k,{ i with unread := i.unread.drop k }) else none

def readByte : Reader Input UInt8 := (fun bytes => bytes.headD 0) <$> take 1

def readType : Reader Input TType := TType.ofCode <$> readByte

def readInt (k : ℕ) : Reader Input ℤ := toInt <$> take k

/-- The size of a string or a container. -/
def readSize : Reader Input ℕ := do
  let n ← readInt 4
  if n < 0 then failure else return n.toNat

def readString : Reader Input (List UInt8) := readSize >>= take

def readFieldBegin : Reader Input (TType × ℤ) := do
  let type ← readType
  if type = .stop then return (.stop,0)
  let id ← readInt 2
  return (type,id)

/-- The fields of a struct up to the stop, for at most `fuel` headers. -/
def readFields {σ α : Type} (fieldBegin : Reader σ (TType × ℤ)) (fieldEnd : Reader σ Unit)
    (field : α → TType → ℤ → Reader σ α) : ℕ → α → Reader σ α :=
  untilStop (fun header => header.1 = .stop) fieldBegin (fun a header => do
    let a ← field a header.1 header.2
    fieldEnd
    return .yield a)

structure MessageHeader where
  name : List UInt8
  type : TMessageType
  seqid : ℤ
deriving DecidableEq, Repr

/-- A header with a version, or one of the older kind without. -/
def readMessageBegin : Reader Input MessageHeader := do
  let word ← take 4
  if toInt word < 0 then
    if word.take 2 = [0x80,0x01] then
      let name ← readString
      let seqid ← readInt 4
      return ⟨name,.ofCode (word.getD 3 0),seqid⟩
    else failure
  else
    let name ← take (toInt word).toNat
    let type ← readByte
    let seqid ← readInt 4
    return ⟨name,.ofCode type,seqid⟩

/-- Go past a value of this type with this much room for nesting. -/
def skip : ℕ → TType → Reader Input Unit
  | 0, _ => failure
  | room + 1, .struct => fun i =>
    readFields readFieldBegin (pure ()) (fun _ type _ => skip room type) (i.unread.length + 1) () i
  | room + 1, .map => do
    let key ← readType
    let value ← readType
    let n ← readSize
    times (skip room key >>= fun _ => skip room value) n
  | room + 1, .set => do
    let type ← readType
    let n ← readSize
    times (skip room type) n
  | room + 1, .list => do
    let type ← readType
    let n ← readSize
    times (skip room type) n
  | _ + 1, .string => readString >>= fun _ => pure ()
  | _ + 1, type =>
    match type.width with
    | some k => take k >>= fun _ => pure ()
    | none => failure

def skipValue (type : TType) : Reader Input Unit := fun i =>
  skip (recursionLimit - i.depth) type i

/-! ## Writing -/

/-- The bytes that wait to be flushed and the structs that are open. -/
structure Output where
  pending : List UInt8
  depth : ℕ
deriving DecidableEq, Repr

namespace Output

def put (bytes : List UInt8) : Reader Output Unit := fun o =>
  some ((),{ o with pending := o.pending ++ bytes })

def putString (bytes : List UInt8) : Reader Output Unit :=
  if bytes.length < 2 ^ 31 then put (writeInt 4 bytes.length ++ bytes) else failure

def enter : Reader Output Unit := fun o =>
  if o.depth < recursionLimit then some ((),{ o with depth := o.depth + 1 }) else none

def leave : Reader Output Unit := fun o => some ((),{ o with depth := o.depth - 1 })

def flush : Reader Output (List UInt8) := fun o => some (o.pending,{ o with pending := [] })

end Output

end RelayBench.BinaryProtocol
