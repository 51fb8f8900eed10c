import RelayBench.Library.CompactMessages

/-! # What the readers of the compact protocol accept

`Reads` is the round trip of one reader: from these bytes and this context it reads this value,
whatever stands behind the bytes, and leaves that context. Fields may have their headers in either
form. All readers are local, so that none of them succeeds on a part of the bytes it would read.
-/
namespace RelayBench.CompactMessages
open Readers Varint
open CompactProtocol (utf8 fromUTF8?_utf8)
variable {α β : Type} {c d e : Context} {room : ℕ}

def Reads (f : Reader Input α) (bytes : List UInt8) (c d : Context) (a : α) : Prop :=
  ∀ rest, f.run ⟨bytes ++ rest,c⟩ = some (a,⟨rest,d⟩)

theorem Reads.pure (a : α) : Reads (pure a) [] c c a := fun _ => rfl

theorem Reads.bind {f : Reader Input α} {k : α → Reader Input β} {p q : List UInt8} {a : α}
    {b : β} (hf : Reads f p c d a) (hk : Reads (k a) q d e b) :
    Reads (f >>= k) (p ++ q) c e b := by
  intro rest
  rw [List.append_assoc, run_bind_some (hf _)]
  exact hk rest

/-- A reader before one that reads nothing. -/
theorem Reads.bind_nil {f : Reader Input α} {k : α → Reader Input β} {p : List UInt8} {a : α}
    {b : β} (hf : Reads f p c d a) (hk : Reads (k a) [] d e b) : Reads (f >>= k) p c e b := by
  have hread := hf.bind hk
  rwa [List.append_nil] at hread

/-- A reader after one that reads nothing. -/
theorem Reads.nil_bind {f : Reader Input α} {k : α → Reader Input β} {q : List UInt8} {a : α}
    {b : β} (hf : Reads f [] c d a) (hk : Reads (k a) q d e b) : Reads (f >>= k) q c e b :=
  hf.bind hk

theorem Reads.map {f : Reader Input α} {xs : List UInt8} {a : α} (g : α → β)
    (hf : Reads f xs c d a) : Reads (g <$> f) xs c d (g a) := by
  intro rest
  rw [StateT.run_map, hf rest]
  rfl

theorem Reads.discard {f : Reader Input α} {xs : List UInt8} {a : α} (hf : Reads f xs c d a) :
    Reads (do let _ ← f; return ()) xs c d () := hf.bind_nil (.pure ())

theorem Reads.of_eq {f : Reader Input α} {xs ys : List UInt8} {a : α} (hf : Reads f xs c d a)
    (h : xs = ys) : Reads f ys c d a := h ▸ hf

/-! ## The context -/

theorem getContext_reads : Reads getContext [] c c c := fun _ => rfl

theorem setContext_reads (d : Context) : Reads (setContext d) [] c d () := fun _ => rfl

/-! ## Numbers and strings -/

theorem take_reads {bytes : List UInt8} {k : ℕ} (h : bytes.length = k) :
    Reads (take k) bytes c c bytes := by
  intro rest
  have hle : k ≤ (bytes ++ rest).length := by
    rw [List.length_append]
    omega
  have hrun : (take k).run ⟨bytes ++ rest,c⟩ =
      some ((bytes ++ rest).take k,⟨(bytes ++ rest).drop k,c⟩) := if_pos hle
  rw [hrun, List.take_left' h, List.drop_left' h]

theorem readByte_reads (b : UInt8) : Reads readByte [b] c c b := by
  have hread : Reads (take 1) [b] c c [b] := take_reads rfl
  exact hread.map (fun bytes => bytes.headD 0)

theorem readVarint_reads {bits n : ℕ} (hbits : 0 < bits) (h : n < 2 ^ bits) :
    Reads (readVarint bits) (encode n) c c n := by
  intro rest
  have hlength : (encode n).length ≤ (bits + 6) / 7 := by
    obtain ⟨k,hk⟩ : ∃ k, (bits + 6) / 7 = k + 1 := ⟨(bits + 6) / 7 - 1,by omega⟩
    rw [hk]
    exact encode_length_le (h.trans_le (Nat.pow_le_pow_right (by norm_num) (by omega)))
  unfold readVarint StateT.run
  dsimp only
  rw [decode_encode]
  dsimp only
  rw [if_pos ⟨h,by rw [List.length_append]; omega⟩]

/-- The integers of this many bits. -/
def Fits (bits : ℕ) (v : ℤ) : Prop := -2 ^ (bits - 1) ≤ v ∧ v < 2 ^ (bits - 1)

theorem readInt_reads {bits : ℕ} (hbits : 0 < bits) {v : ℤ} (h : Fits bits v) :
    Reads (readInt bits) (encode (zigzag v)) c c v := by
  have hzigzag : zigzag v < 2 ^ bits := by
    have hlt := zigzag_lt h.1 h.2
    rwa [Nat.sub_add_cancel hbits] at hlt
  have hread := (@readVarint_reads c _ _ hbits hzigzag).map unzigzag
  rwa [unzigzag_zigzag] at hread

theorem utf8_append (s t : String) : utf8 (s ++ t) = utf8 s ++ utf8 t := by
  simp [utf8, String.toByteArray_append]

theorem utf8_length_le (s : String) : (utf8 s).length ≤ 4 * s.length := by
  obtain ⟨l,rfl⟩ : ∃ l, s = String.ofList l := ⟨s.toList,by simp⟩
  induction l with
  | nil => decide
  | cons c l ih =>
    have hchar : (utf8 (String.singleton c)).length = c.utf8Size := by
      simp [utf8, List.utf8Encode_singleton]
    have hsize := c.utf8Size_le_four
    rw [String.ofList_cons, utf8_append, List.length_append, String.length_append,
      String.length_singleton]
    omega

theorem stringBytes_eq {s : String} (h : (utf8 s).length < 2 ^ 32) :
    stringBytes s = encode (utf8 s).length ++ utf8 s := by
  rw [stringBytes, Nat.mod_eq_of_lt h]

theorem readString_reads {s : String} (h : (utf8 s).length < 2 ^ 32) :
    Reads readString (stringBytes s) c c s := by
  rw [stringBytes_eq h]
  refine (readVarint_reads (by norm_num) h).bind ((take_reads rfl).bind_nil ?_)
  rw [fromUTF8?_utf8]
  exact .pure s

/-! ## Types and headers -/

theorem ofCode_code (type : TType) : TType.ofCode type.code = some type := by
  cases type <;> rfl

theorem code_lt (type : TType) : type.code < 16 := by
  cases type <;> decide

theorem TMessageType.ofCode_code (type : TMessageType) :
    TMessageType.ofCode type.code = some type := by
  cases type <;> rfl

theorem TMessageType.code_lt (type : TMessageType) : type.code < 5 := by
  cases type <;> decide

/-- A field: its header is short, with the distance from the last id, or it has the id. The value
of a Boolean is in the header. -/
structure Field where
  type : TType
  id : ℤ
  short : Bool
  bool : Bool
  value : List UInt8
deriving DecidableEq, Repr

/-- The type in the header. -/
def Field.code (f : Field) : ℕ :=
  if f.type = .bool then if f.bool then 1 else 2 else f.type.code

def Field.begin (last : ℤ) (f : Field) : List UInt8 :=
  if f.short then [UInt8.ofNat ((f.id - last).toNat * 16 + f.code)]
  else UInt8.ofNat f.code :: encode (zigzag f.id)

def Field.header (f : Field) : FieldHeader := ⟨f.type,some f.id⟩

structure Field.Valid (last : ℤ) (f : Field) : Prop where
  type : f.type ≠ .stop
  id : Fits 16 f.id
  short : f.short = true → last < f.id ∧ f.id ≤ last + 15
  bool : f.type = .bool → f.value = []

/-- The context behind the header of a field. -/
def Context.atField (c : Context) (f : Field) : Context :=
  { c with lastField := f.id, bool := if f.type = .bool then some f.bool else c.bool }

/-- The context behind a whole field. -/
def Context.after (c : Context) (f : Field) : Context := { c with lastField := f.id }

theorem Context.atField_eq (c : Context) {f : Field} (h : f.type ≠ .bool) :
    c.atField f = c.after f := by
  rw [atField, if_neg h]
  rfl

theorem Field.code_lt (f : Field) : f.code < 16 := by
  unfold Field.code
  split
  · split <;> norm_num
  · exact CompactMessages.code_lt f.type

theorem readFieldType_reads (f : Field) : Reads (readFieldType f.code) [] c
    { c with bool := if f.type = .bool then some f.bool else c.bool } f.type := by
  refine getContext_reads.nil_bind ?_
  rw [Field.code]
  by_cases ht : f.type = .bool
  · rw [if_pos ht, if_pos ht, ht]
    cases f.bool
    · exact (setContext_reads _).nil_bind (.pure _)
    · exact (setContext_reads _).nil_bind (.pure _)
  · have hone : f.type.code ≠ 1 := by
      intro h
      cases hf : f.type <;> simp_all [TType.code]
    have htwo : f.type.code ≠ 2 := by
      intro h
      cases hf : f.type <;> simp_all [TType.code]
    rw [if_neg ht, if_neg ht, if_neg hone, if_neg htwo, ofCode_code]
    exact .pure _

theorem bmod_of_fits {id : ℤ} (h : Fits 16 id) : id.bmod (2 ^ 16) = id := by
  obtain ⟨hlo,hhi⟩ := h
  apply Int.bmod_eq_of_le_mul_two
  · norm_num at hlo ⊢
    omega
  · norm_num at hhi ⊢
    omega

theorem toNat_header {delta code : ℕ} (hdelta : delta ≤ 15) (hcode : code < 16) :
    (UInt8.ofNat (delta * 16 + code)).toNat = delta * 16 + code := toNat_ofNat (by omega)

theorem readFieldBegin_stop : Reads readFieldBegin [0] c c ⟨.stop,none⟩ := by
  have htype : Reads (readFieldType 0) [] c c .stop := getContext_reads.nil_bind (.pure _)
  exact (readByte_reads 0).bind_nil (htype.nil_bind (.pure _))

theorem readFieldBegin_reads {f : Field} (h : f.Valid c.lastField) :
    Reads readFieldBegin (f.begin c.lastField) c (c.atField f) f.header := by
  obtain ⟨htype,hid,hshort,_⟩ := h
  have hcode := f.code_lt
  unfold Field.begin
  cases hs : f.short with
  | true =>
    obtain ⟨hlow,hhigh⟩ := hshort hs
    obtain ⟨n,hn⟩ : ∃ n : ℕ, f.id = c.lastField + n := ⟨(f.id - c.lastField).toNat,by omega⟩
    have hdelta : (f.id - c.lastField).toNat = n := by omega
    have hbyte := toNat_header (show n ≤ 15 by omega) hcode
    rw [if_pos rfl, hdelta]
    refine (readByte_reads _).bind_nil ?_
    rw [hbyte, show (n * 16 + f.code) % 16 = f.code by omega,
      show (n * 16 + f.code) / 16 = n by omega]
    refine (readFieldType_reads f).nil_bind ?_
    rw [if_neg htype]
    refine Reads.nil_bind (a := f.id) ?_ (.pure _)
    rw [readFieldId, if_pos (by omega)]
    refine getContext_reads.nil_bind ?_
    dsimp only
    rw [← hn, bmod_of_fits hid]
    exact (setContext_reads _).nil_bind (.pure _)
  | false =>
    have hbyte := toNat_header (Nat.zero_le 15) hcode
    rw [Nat.zero_mul, Nat.zero_add] at hbyte
    rw [if_neg Bool.false_ne_true]
    refine (readByte_reads _).bind (p := [_]) ?_
    rw [hbyte, Nat.mod_eq_of_lt hcode, Nat.div_eq_of_lt hcode]
    refine (readFieldType_reads f).nil_bind ?_
    rw [if_neg htype]
    refine Reads.bind_nil (a := f.id) ?_ (.pure _)
    rw [readFieldId, if_neg (not_not_intro rfl)]
    refine (readInt_reads (by norm_num) hid).bind_nil ?_
    exact getContext_reads.nil_bind ((setContext_reads _).nil_bind (.pure _))

/-! ## Structs -/

def structBytes : ℤ → List Field → List UInt8
  | _, [] => [0]
  | last, f :: fs => f.begin last ++ (f.value ++ structBytes f.id fs)

/-- Every field can follow the one before it. -/
def ValidFrom : ℤ → List Field → Prop
  | _, [] => True
  | last, f :: fs => f.Valid last ∧ ValidFrom f.id fs

theorem length_lt_structBytes (last : ℤ) (fs : List Field) :
    fs.length < (structBytes last fs).length := by
  induction fs generalizing last with
  | nil => exact Nat.one_pos
  | cons f fs ih =>
    have hpos : 0 < (f.begin last).length := by
      unfold Field.begin
      split <;> simp
    have hrest := ih f.id
    simp only [structBytes, List.length_append, List.length_cons]
    omega

/-- What the body of a loop does with a field that it has read the header of. -/
def BodyReads (body : α → FieldHeader → Reader Input (ForInStep α)) (f : Field) (a : α)
    (r : ForInStep α) : Prop :=
  ∀ c : Context, c.bool = none → Reads (body a f.header) f.value (c.atField f) (c.after f) r

/-- The loop of a struct reads its fields one after the other. -/
theorem untilStop_reads {body : α → FieldHeader → Reader Input (ForInStep α)} {step : α → Field → α}
    {fuel : ℕ} {fs : List Field} (hvalid : ValidFrom c.lastField fs) (hbool : c.bool = none)
    (hbody : ∀ f ∈ fs, ∀ a, BodyReads body f a (.yield (step a f))) (hfuel : fs.length < fuel)
    (a : α) :
    ∃ last, Reads (untilStop Stops readFieldBegin body fuel a) (structBytes c.lastField fs) c
      { c with lastField := last } (fs.foldl step a) := by
  induction fs generalizing c fuel a with
  | nil =>
    obtain ⟨fuel,rfl⟩ : ∃ n, fuel = n + 1 := ⟨fuel - 1,by simp at hfuel; omega⟩
    exact ⟨c.lastField,readFieldBegin_stop.bind_nil (.pure _)⟩
  | cons f fs ih =>
    obtain ⟨fuel,rfl⟩ : ∃ n, fuel = n + 1 := ⟨fuel - 1,by simp at hfuel; omega⟩
    obtain ⟨hf,hrest⟩ := hvalid
    obtain ⟨last,hloop⟩ := @ih (c.after f) fuel hrest hbool
      (fun g hg => hbody g (List.mem_cons_of_mem f hg)) (by simpa using hfuel) (step a f)
    refine ⟨last,(readFieldBegin_reads hf).bind ?_⟩
    rw [if_neg (show ¬Stops f.header from hf.type)]
    exact (hbody f List.mem_cons_self a c hbool).bind hloop

theorem readStructBegin_reads :
    Reads readStructBegin [] c { c with lastField := 0, saved := c.lastField :: c.saved } () :=
  getContext_reads.nil_bind (setContext_reads _)

theorem readStructEnd_reads (last : ℤ) :
    Reads readStructEnd [] { c with lastField := last, saved := c.lastField :: c.saved } c () :=
  getContext_reads.nil_bind (setContext_reads _)

/-! ## Values of any type -/

/-- The bytes are a value of this type, nested at most `room` deep. -/
inductive Encodes : ℕ → TType → List UInt8 → Prop
  | bool {room : ℕ} (b : Bool) : Encodes (room + 1) .bool [if b then 1 else 2]
  | i8 {room : ℕ} (b : UInt8) : Encodes (room + 1) .i8 [b]
  | i16 {room : ℕ} {v : ℤ} (h : Fits 16 v) : Encodes (room + 1) .i16 (encode (zigzag v))
  | i32 {room : ℕ} {v : ℤ} (h : Fits 32 v) : Encodes (room + 1) .i32 (encode (zigzag v))
  | i64 {room : ℕ} {v : ℤ} (h : Fits 64 v) : Encodes (room + 1) .i64 (encode (zigzag v))
  | double {room : ℕ} {bytes : List UInt8} (h : bytes.length = 8) :
      Encodes (room + 1) .double bytes
  | string {room : ℕ} {s : String} (h : (utf8 s).length < 2 ^ 32) :
      Encodes (room + 1) .string (stringBytes s)
  | list {room : ℕ} {type : TType} {items : List (List UInt8)} (hlength : items.length < 15)
      (h : ∀ item ∈ items, Encodes room type item) : Encodes (room + 1) .list
        (UInt8.ofNat (items.length * 16 + type.code) :: items.flatten)
  | set {room : ℕ} {type : TType} {items : List (List UInt8)} (hlength : items.length < 15)
      (h : ∀ item ∈ items, Encodes room type item) : Encodes (room + 1) .set
        (UInt8.ofNat (items.length * 16 + type.code) :: items.flatten)
  | longList {room : ℕ} {type : TType} {items : List (List UInt8)}
      (hlength : items.length < 2 ^ 31) (h : ∀ item ∈ items, Encodes room type item) :
      Encodes (room + 1) .list (UInt8.ofNat (15 * 16 + type.code) ::
        (encode items.length ++ items.flatten))
  | longSet {room : ℕ} {type : TType} {items : List (List UInt8)}
      (hlength : items.length < 2 ^ 31) (h : ∀ item ∈ items, Encodes room type item) :
      Encodes (room + 1) .set (UInt8.ofNat (15 * 16 + type.code) ::
        (encode items.length ++ items.flatten))
  | emptyMap {room : ℕ} : Encodes (room + 1) .map (encode 0)
  | map {room : ℕ} {key value : TType} {entries : List (List UInt8 × List UInt8)}
      (hne : entries ≠ []) (hlength : entries.length < 2 ^ 31)
      (h : ∀ e ∈ entries, Encodes room key e.1) (h' : ∀ e ∈ entries, Encodes room value e.2) :
      Encodes (room + 1) .map (encode entries.length ++ (UInt8.ofNat (key.code * 16 + value.code) ::
        (entries.map (fun e => e.1 ++ e.2)).flatten))
  | struct {room : ℕ} {fs : List Field} (hvalid : ValidFrom 0 fs)
      (h : ∀ f ∈ fs, f.type ≠ .bool → Encodes room f.type f.value)
      (hbool : ∀ f ∈ fs, f.type = .bool → f.value = [] ∧ 0 < room) :
      Encodes (room + 1) .struct (structBytes 0 fs)

/-- A field with a value nested at most `room` deep. -/
def Field.Encoded (room : ℕ) (f : Field) : Prop :=
  (f.type ≠ .bool → Encodes room f.type f.value) ∧ (f.type = .bool → f.value = [] ∧ 0 < room)

theorem times_reads {f : Reader Input Unit} {items : List (List UInt8)}
    (h : ∀ item ∈ items, Reads f item c c ()) :
    Reads (times f items.length) items.flatten c c () := by
  induction items with
  | nil => exact .pure ()
  | cons item items ih =>
    exact (h item List.mem_cons_self).bind (ih (fun x hx => h x (List.mem_cons_of_mem item hx)))

theorem bmod_toNat {n : ℕ} (h : n < 2 ^ 31) : ((n : ℤ).bmod (2 ^ 32)).toNat = n := by
  have heq : (n : ℤ).bmod (2 ^ 32) = n := by
    apply Int.bmod_eq_of_le_mul_two
    · norm_num
      omega
    · norm_num
      omega
  rw [heq, Int.toNat_natCast]

theorem readElements_reads {type : TType} {n : ℕ} (h : n < 15) :
    Reads readElements [UInt8.ofNat (n * 16 + type.code)] c c (type,n) := by
  have hcode := code_lt type
  refine (readByte_reads _).bind_nil ?_
  rw [toNat_header h.le hcode, show (n * 16 + type.code) % 16 = type.code by omega,
    show (n * 16 + type.code) / 16 = n by omega, ofCode_code]
  dsimp only
  rw [if_pos h.ne]
  exact .pure _

theorem readElements_long {type : TType} {n : ℕ} (h : n < 2 ^ 31) :
    Reads readElements (UInt8.ofNat (15 * 16 + type.code) :: encode n) c c (type,n) := by
  have hcode := code_lt type
  refine (readByte_reads _).bind (p := [_]) ?_
  rw [toNat_header le_rfl hcode, show (15 * 16 + type.code) % 16 = type.code by omega,
    show (15 * 16 + type.code) / 16 = 15 by omega, ofCode_code]
  dsimp only
  rw [if_neg (not_not_intro rfl)]
  refine (readVarint_reads (by norm_num) (h.trans (by norm_num))).bind_nil ?_
  rw [bmod_toNat h]
  exact .pure _

theorem readEntries_reads {key value : TType} {n : ℕ} (hn : n ≠ 0) (h : n < 2 ^ 31) :
    Reads readEntries (encode n ++ [UInt8.ofNat (key.code * 16 + value.code)]) c c
      (some (key,value),n) := by
  have hkey := code_lt key
  have hvalue := code_lt value
  refine (readVarint_reads (by norm_num) (h.trans (by norm_num))).bind ?_
  rw [if_neg hn]
  refine (readByte_reads _).bind_nil ?_
  rw [toNat_header (by omega) hvalue, show (key.code * 16 + value.code) / 16 = key.code by omega,
    show (key.code * 16 + value.code) % 16 = value.code by omega, ofCode_code, ofCode_code,
    bmod_toNat h]
  exact .pure _

/-- A Boolean field is skipped with its header. -/
theorem skipBool_reads {f : Field} (ht : f.type = .bool) (hbool : c.bool = none) {more : ℕ} :
    Reads (skip (more + 1) f.type) [] (c.atField f) (c.after f) () := by
  have hlast : { c.atField f with bool := none } = c.after f := by
    rw [Context.atField, Context.after, ← hbool]
  rw [ht]
  refine Reads.discard (a := f.bool) (getContext_reads.nil_bind ?_)
  simp only [Context.atField, if_pos ht]
  rw [← hlast]
  exact (setContext_reads _).nil_bind (.pure _)

/-- `skip` goes past a value of any type. -/
theorem skip_reads {type : TType} {bytes : List UInt8} (h : Encodes room type bytes) {more : ℕ}
    (hmore : room ≤ more) (hbool : c.bool = none) : Reads (skip more type) bytes c c () := by
  induction h generalizing more c with
  | bool b =>
    obtain ⟨more,rfl⟩ : ∃ n, more = n + 1 := ⟨more - 1,by omega⟩
    refine Reads.discard (a := b) (getContext_reads.nil_bind ?_)
    rw [hbool]
    refine (readByte_reads _).bind_nil ?_
    cases b <;> exact .pure _
  | i8 b =>
    obtain ⟨more,rfl⟩ : ∃ n, more = n + 1 := ⟨more - 1,by omega⟩
    exact (readByte_reads b).discard
  | i16 h =>
    obtain ⟨more,rfl⟩ : ∃ n, more = n + 1 := ⟨more - 1,by omega⟩
    exact (readInt_reads (by norm_num) h).discard
  | i32 h =>
    obtain ⟨more,rfl⟩ : ∃ n, more = n + 1 := ⟨more - 1,by omega⟩
    exact (readInt_reads (by norm_num) h).discard
  | i64 h =>
    obtain ⟨more,rfl⟩ : ∃ n, more = n + 1 := ⟨more - 1,by omega⟩
    exact (readInt_reads (by norm_num) h).discard
  | double h =>
    obtain ⟨more,rfl⟩ : ∃ n, more = n + 1 := ⟨more - 1,by omega⟩
    exact (take_reads h).discard
  | string h =>
    obtain ⟨more,rfl⟩ : ∃ n, more = n + 1 := ⟨more - 1,by omega⟩
    exact (readString_reads h).discard
  | list hlength _ ih =>
    obtain ⟨more,rfl⟩ : ∃ n, more = n + 1 := ⟨more - 1,by omega⟩
    exact (readElements_reads hlength).bind (times_reads
      (fun item hitem => ih item hitem (by omega) hbool))
  | set hlength _ ih =>
    obtain ⟨more,rfl⟩ : ∃ n, more = n + 1 := ⟨more - 1,by omega⟩
    exact (readElements_reads hlength).bind (times_reads
      (fun item hitem => ih item hitem (by omega) hbool))
  | longList hlength _ ih =>
    obtain ⟨more,rfl⟩ : ∃ n, more = n + 1 := ⟨more - 1,by omega⟩
    exact (readElements_long hlength).bind (times_reads
      (fun item hitem => ih item hitem (by omega) hbool))
  | longSet hlength _ ih =>
    obtain ⟨more,rfl⟩ : ∃ n, more = n + 1 := ⟨more - 1,by omega⟩
    exact (readElements_long hlength).bind (times_reads
      (fun item hitem => ih item hitem (by omega) hbool))
  | emptyMap =>
    obtain ⟨more,rfl⟩ : ∃ n, more = n + 1 := ⟨more - 1,by omega⟩
    have hentries : Reads readEntries (encode 0) c c (none,0) :=
      (readVarint_reads (by norm_num) (by norm_num)).bind_nil (.pure _)
    exact hentries.bind_nil (.pure ())
  | @map room key value entries hne hlength _ _ ih ih' =>
    obtain ⟨more,rfl⟩ : ∃ n, more = n + 1 := ⟨more - 1,by omega⟩
    have hn : entries.length ≠ 0 := fun h => hne (List.length_eq_zero_iff.mp h)
    have hitems : Reads (times (skip more key >>= fun _ => skip more value)
        (entries.map (fun e => e.1 ++ e.2)).length) (entries.map (fun e => e.1 ++ e.2)).flatten c c
        () := by
      apply times_reads
      intro item hitem
      obtain ⟨e,he,rfl⟩ := List.mem_map.mp hitem
      exact (ih e he (by omega) hbool).bind (ih' e he (by omega) hbool)
    rw [List.length_map] at hitems
    refine Reads.of_eq ((readEntries_reads hn hlength).bind ?_) (List.append_assoc _ _ _)
    exact hitems
  | @struct room fs hvalid _ hfields ih =>
    obtain ⟨more,rfl⟩ : ∃ n, more = n + 1 := ⟨more - 1,by omega⟩
    have hbody : ∀ f ∈ fs, ∀ a, BodyReads (fun _ h => ForInStep.yield <$> skip more h.type) f a
        (.yield ()) := by
      intro f hf _ d hd
      refine Reads.map ForInStep.yield (a := ()) ?_
      by_cases ht : f.type = .bool
      · obtain ⟨hvalue,hroom⟩ := hfields f hf ht
        obtain ⟨more,rfl⟩ : ∃ n, more = n + 1 := ⟨more - 1,by omega⟩
        rw [hvalue]
        exact skipBool_reads ht hd
      · rw [d.atField_eq ht]
        exact ih f hf ht (by omega) hd
    intro rest
    have hfuel : fs.length < (structBytes 0 fs ++ rest).length + 1 := by
      have hlength := length_lt_structBytes 0 fs
      rw [List.length_append]
      omega
    obtain ⟨last,hloop⟩ := @untilStop_reads Unit
      { c with lastField := 0, saved := c.lastField :: c.saved } _ (fun _ _ => ()) _ _ hvalid hbool
      hbody hfuel ()
    have hbegin := @readStructBegin_reads c (structBytes 0 fs ++ rest)
    have hend := @readStructEnd_reads c last rest
    have hrun := hloop rest
    rw [List.nil_append] at hbegin hend
    show (readStructBegin >>= fun _ => (fun i => untilStop Stops readFieldBegin
      (fun _ h => ForInStep.yield <$> skip more h.type) (i.unread.length + 1) () i) >>=
      fun _ => readStructEnd).run _ = _
    rw [run_bind_some hbegin]
    exact (run_bind_some (k := fun _ => readStructEnd) hrun).trans hend

theorem skipField_reads {f : Field} (h : f.Encoded room) (hroom : room ≤ skipLimit)
    (hbool : c.bool = none) :
    Reads (skipValue f.type) f.value (c.atField f) (c.after f) () := by
  by_cases ht : f.type = .bool
  · rw [(h.2 ht).1]
    exact skipBool_reads ht hbool
  · rw [c.atField_eq ht]
    exact skip_reads (h.1 ht) hroom hbool

/-! ## Messages -/

theorem unsigned_lt (v : ℤ) : unsigned v < 2 ^ 32 := by
  have hlt := Int.emod_lt_of_pos v (show (0 : ℤ) < 2 ^ 32 by norm_num)
  have hnonneg := Int.emod_nonneg v (show (2 ^ 32 : ℤ) ≠ 0 by norm_num)
  unfold unsigned
  omega

theorem bmod_unsigned {v : ℤ} (h : Fits 32 v) : (unsigned v : ℤ).bmod (2 ^ 32) = v := by
  have hnonneg := Int.emod_nonneg v (show (2 ^ 32 : ℤ) ≠ 0 by norm_num)
  have hcast : (unsigned v : ℤ) = v % (2 ^ 32 : ℕ) := by
    rw [unsigned, Int.toNat_of_nonneg hnonneg]
    norm_num
  obtain ⟨hlo,hhi⟩ := h
  rw [hcast, Int.emod_bmod]
  apply Int.bmod_eq_of_le_mul_two
  · norm_num at hlo ⊢
    omega
  · norm_num at hhi ⊢
    omega

theorem readMessageBegin_reads {h : MessageHeader} (hname : (utf8 h.name).length < 2 ^ 32)
    (hseqid : Fits 32 h.seqid) :
    Reads readMessageBegin (messageBegin h) c { c with lastField := 0 } h := by
  have hcode := TMessageType.code_lt h.type
  refine (readByte_reads 0x82).bind (p := [_]) ?_
  rw [if_neg (not_not_intro rfl)]
  refine (readByte_reads _).bind (p := [_]) ?_
  rw [toNat_ofNat (by omega), show (h.type.code * 32 + 1) % 32 = 1 by omega,
    show (h.type.code * 32 + 1) / 32 = h.type.code by omega, TMessageType.ofCode_code,
    if_neg (not_not_intro rfl)]
  refine (readVarint_reads (by norm_num) (unsigned_lt _)).bind ((readString_reads hname).bind_nil ?_)
  rw [bmod_unsigned hseqid]
  exact getContext_reads.nil_bind ((setContext_reads _).nil_bind (.pure _))

/-! ## Writing -/

/-- A writer appends these bytes; what it remembers is as in these contexts. -/
def Writes (f : Reader Output Unit) (bytes : List UInt8) (last last' : ℤ) : Prop :=
  ∀ pending saved, f.run ⟨pending,last,saved⟩ = some ((),⟨pending ++ bytes,last',saved⟩)

theorem Writes.pure {last : ℤ} : Writes (pure ()) [] last last := by
  intro pending saved
  rw [List.append_nil]
  rfl

theorem put_writes (bytes : List UInt8) {last : ℤ} : Writes (Output.put bytes) bytes last last :=
  fun _ _ => rfl

theorem Writes.bind {f g : Reader Output Unit} {p q : List UInt8} {last last' last'' : ℤ}
    (hf : Writes f p last last') (hg : Writes g q last' last'') :
    Writes (do f; g) (p ++ q) last last'' := by
  intro pending saved
  rw [run_bind_some (hf pending saved), hg, List.append_assoc]

/-- The header of a field as it is written. -/
def fieldAt (last : ℤ) (type : TType) (id : ℤ) (value : List UInt8) : Field :=
  ⟨type,id,decide (last < id ∧ id < last + 15),false,value⟩

theorem fieldBegin_writes {type : TType} (ht : type ≠ .bool) (last id : ℤ) (value : List UInt8) :
    Writes (Output.fieldBegin type id) ((fieldAt last type id value).begin last) last id := by
  intro pending saved
  have hcode : (fieldAt last type id value).code = type.code := if_neg ht
  have hbegin : (fieldAt last type id value).begin last = if last < id ∧ id < last + 15 then
      [UInt8.ofNat ((id - last).toNat * 16 + type.code)]
      else UInt8.ofNat type.code :: encode (zigzag id) := by
    rw [Field.begin, hcode]
    simp [fieldAt]
  rw [hbegin]
  rfl

theorem fieldAt_valid {type : TType} (hstop : type ≠ .stop) (hbool : type ≠ .bool) {last id : ℤ}
    (hid : Fits 16 id) (value : List UInt8) : (fieldAt last type id value).Valid last where
  type := hstop
  id := hid
  short h := by
    have hin : last < id ∧ id < last + 15 := of_decide_eq_true h
    exact ⟨hin.1,by show id ≤ last + 15; omega⟩
  bool h := absurd h hbool

/-- A struct is written between its begin and its end. -/
theorem struct_writes {f : Reader Output Unit} {p : List UInt8} {last last' : ℤ}
    (hf : Writes f p 0 last') :
    Writes (do Output.structBegin; f; Output.structEnd) p last last := by
  intro pending saved
  have hbegin : Output.structBegin.run ⟨pending,last,saved⟩ = some ((),⟨pending,0,last :: saved⟩) :=
    rfl
  rw [run_bind_some hbegin, run_bind_some (hf pending (last :: saved))]
  rfl

/-! ## Locality -/

theorem take_local (k : ℕ) : Local Input.extend (take k) := by
  intro i bytes t h more
  obtain ⟨hle,heq⟩ := Option.ite_none_right_eq_some.mp h
  cases heq
  have hle' : k ≤ (i.extend more).unread.length := by
    simp only [Input.extend, List.length_append]
    omega
  have hrun : (take k).run (i.extend more) = some ((i.extend more).unread.take k,
      { i.extend more with unread := (i.extend more).unread.drop k }) := if_pos hle'
  rw [hrun]
  simp only [Input.extend, List.take_append_of_le_length hle, List.drop_append_of_le_length hle]

theorem getContext_local : Local Input.extend getContext := by
  intro i c t h more
  cases h
  rfl

theorem setContext_local (c : Context) : Local Input.extend (setContext c) := by
  intro i a t h more
  cases h
  rfl

theorem readByte_local : Local Input.extend readByte := (take_local 1).map _

theorem readVarint_local (bits : ℕ) : Local Input.extend (readVarint bits) := by
  intro i n t h more
  unfold readVarint StateT.run at h ⊢
  dsimp only at h ⊢
  cases hdecode : decode i.unread with
  | none => simp [hdecode] at h
  | some p =>
    obtain ⟨m,rest⟩ := p
    simp only [hdecode] at h
    obtain ⟨⟨hm,hlength⟩,heq⟩ := Option.ite_none_right_eq_some.mp h
    cases heq
    have hmore : decode (i.extend more).unread = some (n,rest ++ more) := decode_append hdecode more
    rw [hmore]
    dsimp only
    rw [if_pos ⟨hm,by simp only [Input.extend, List.length_append]; omega⟩]
    rfl

theorem readInt_local (bits : ℕ) : Local Input.extend (readInt bits) := (readVarint_local bits).map _

theorem readString_local : Local Input.extend readString := by
  refine (readVarint_local 32).bind (fun n => (take_local n).bind (fun bytes => ?_))
  split
  · exact .failure
  · exact .pure _

theorem readStructBegin_local : Local Input.extend readStructBegin :=
  getContext_local.bind (fun _ => setContext_local _)

theorem readStructEnd_local : Local Input.extend readStructEnd := by
  refine getContext_local.bind (fun c => ?_)
  split
  · exact .failure
  · exact setContext_local _

theorem readFieldType_local (code : ℕ) : Local Input.extend (readFieldType code) := by
  refine getContext_local.bind (fun c => ?_)
  split
  · exact (setContext_local _).bind (fun _ => .pure _)
  · split
    · exact (setContext_local _).bind (fun _ => .pure _)
    · split
      · exact .failure
      · exact .pure _

theorem readFieldId_local (delta : ℕ) : Local Input.extend (readFieldId delta) := by
  unfold readFieldId
  split
  · exact getContext_local.bind (fun c => (setContext_local _).bind (fun _ => .pure _))
  · exact (readInt_local 16).bind (fun id => getContext_local.bind (fun c =>
      (setContext_local _).bind (fun _ => .pure _)))

theorem readFieldBegin_local : Local Input.extend readFieldBegin := by
  refine readByte_local.bind (fun b => (readFieldType_local _).bind (fun type => ?_))
  split
  · exact .pure _
  · exact (readFieldId_local _).bind (fun id => .pure _)

theorem readBool_local : Local Input.extend readBool := by
  refine getContext_local.bind (fun c => ?_)
  split
  · exact (setContext_local _).bind (fun _ => .pure _)
  · refine readByte_local.bind (fun b => ?_)
    split
    · exact .pure _
    · split
      · exact .pure _
      · exact .failure

theorem readElements_local : Local Input.extend readElements := by
  refine readByte_local.bind (fun b => ?_)
  split
  · exact .failure
  · split
    · exact .pure _
    · exact (readVarint_local 32).bind (fun n => .pure _)

theorem readEntries_local : Local Input.extend readEntries := by
  refine (readVarint_local 32).bind (fun n => ?_)
  split
  · exact .pure _
  · refine readByte_local.bind (fun b => ?_)
    split
    · exact .pure _
    · exact .failure

theorem readMessageBegin_local : Local Input.extend readMessageBegin := by
  refine readByte_local.bind (fun id => ?_)
  split
  · exact .failure
  · refine readByte_local.bind (fun b => ?_)
    split
    · exact .failure
    · split
      · exact .failure
      · exact (readVarint_local 32).bind (fun seqid => readString_local.bind (fun name =>
          getContext_local.bind (fun c => (setContext_local _).bind (fun _ => .pure _))))

theorem skip_local (room : ℕ) (type : TType) : Local Input.extend (skip room type) := by
  induction room generalizing type with
  | zero => exact .failure
  | succ room ih =>
    cases type with
    | struct =>
      refine readStructBegin_local.bind (fun _ => Local.bind ?_ (fun _ => readStructEnd_local))
      intro i a t h more
      have hloop := untilStop_local readFieldBegin_local
        (fun _ h => (ih h.type).map ForInStep.yield) (i.unread.length + 1) () i a t h more
      refine untilStop_mono ?_ hloop
      simp only [Input.extend, List.length_append]
      omega
    | map =>
      refine readEntries_local.bind (fun p => ?_)
      obtain ⟨types,n⟩ := p
      cases types with
      | none => exact .pure ()
      | some types => exact times_local ((ih types.1).bind (fun _ => ih types.2)) n
    | list => exact readElements_local.bind (fun p => times_local (ih p.1) p.2)
    | set => exact readElements_local.bind (fun p => times_local (ih p.1) p.2)
    | string => exact readString_local.bind (fun _ => .pure ())
    | bool => exact readBool_local.bind (fun _ => .pure ())
    | i8 => exact readByte_local.bind (fun _ => .pure ())
    | double => exact (take_local 8).bind (fun _ => .pure ())
    | i16 | i32 | i64 => exact (readInt_local _).bind (fun _ => .pure ())
    | stop => exact .failure

/-- No part of the bytes that is shorter than all of them is read. -/
theorem Reads.none_of_short {f : Reader Input α} {bytes : List UInt8} {a : α}
    (hf : Reads f bytes c d a) (hlocal : Local Input.extend f) {part : List UInt8}
    (hpart : part <+: bytes) (hshort : part ≠ bytes) : f.run ⟨part,c⟩ = none := by
  obtain ⟨more,rfl⟩ := hpart
  have hfull : f.run (Input.extend ⟨part,c⟩ more) = some (a,⟨[],d⟩) := by
    have hrun := hf []
    rwa [List.append_nil] at hrun
  apply hlocal.none_of_short hfull
  intro t ht
  have hmore : t.unread ++ more = [] := congrArg Input.unread ht
  obtain ⟨_,rfl⟩ := List.append_eq_nil_iff.mp hmore
  simp at hshort

end RelayBench.CompactMessages
