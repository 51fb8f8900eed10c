import RelayBench.Library.BinaryProtocol

/-! # What the readers of the binary protocol accept

`Reads` is the round trip of one reader: from these bytes it reads this value, whatever stands
behind them, as long as there is this much room for nesting. All readers are local, so that none
of them succeeds on a part of the bytes it would read, and none puts bytes back.
-/
namespace RelayBench.BinaryProtocol
open Readers
variable {α β : Type} {room : ℕ}

def Reads (room : ℕ) (f : Reader Input α) (bytes : List UInt8) (a : α) : Prop :=
  ∀ rest depth, depth + room ≤ recursionLimit →
    f.run ⟨bytes ++ rest,depth⟩ = some (a,⟨rest,depth⟩)

theorem Reads.pure (a : α) : Reads room (pure a) [] a := fun _ _ _ => rfl

theorem Reads.bind {f : Reader Input α} {k : α → Reader Input β} {p q : List UInt8} {a : α}
    {b : β} (hf : Reads room f p a) (hk : Reads room (k a) q b) :
    Reads room (f >>= k) (p ++ q) b := by
  intro rest depth hroom
  rw [List.append_assoc, run_bind_some (hf _ depth hroom)]
  exact hk rest depth hroom

/-- A reader before one that reads nothing. -/
theorem Reads.bind_nil {f : Reader Input α} {k : α → Reader Input β} {p : List UInt8} {a : α}
    {b : β} (hf : Reads room f p a) (hk : Reads room (k a) [] b) : Reads room (f >>= k) p b := by
  have hread := hf.bind hk
  rwa [List.append_nil] at hread

/-- A reader after one that reads nothing. -/
theorem Reads.nil_bind {f : Reader Input α} {k : α → Reader Input β} {q : List UInt8} {a : α}
    {b : β} (hf : Reads room f [] a) (hk : Reads room (k a) q b) : Reads room (f >>= k) q b :=
  hf.bind hk

theorem Reads.map {f : Reader Input α} {xs : List UInt8} {a : α} (c : α → β)
    (hf : Reads room f xs a) : Reads room (c <$> f) xs (c a) := by
  intro rest depth hroom
  rw [StateT.run_map, hf rest depth hroom]
  rfl

theorem Reads.discard {f : Reader Input α} {xs : List UInt8} {a : α} (hf : Reads room f xs a) :
    Reads room (do let _ ← f; return ()) xs () := by
  have hread := hf.map (fun _ => ())
  rwa [map_eq_pure_bind] at hread

theorem Reads.mono {f : Reader Input α} {xs : List UInt8} {a : α} {more : ℕ}
    (hf : Reads room f xs a) (h : room ≤ more) : Reads more f xs a := by
  intro rest depth hroom
  exact hf rest depth (by omega)

/-- A reader inside a struct has one level less. -/
theorem Reads.inside {f : Reader Input α} {xs : List UInt8} {a : α} (hf : Reads room f xs a) :
    Reads (room + 1) (do enter; let a ← f; leave; return a) xs a := by
  intro rest depth hroom
  have henter : enter.run ⟨xs ++ rest,depth⟩ = some ((),⟨xs ++ rest,depth + 1⟩) :=
    if_pos (show depth < recursionLimit by omega)
  have hleave : leave.run ⟨rest,depth + 1⟩ = some ((),⟨rest,depth⟩) := rfl
  rw [run_bind_some henter, run_bind_some (hf rest (depth + 1) (by omega)), run_bind_some hleave]
  rfl

/-! ## Numbers, strings and headers -/

theorem take_reads {bytes : List UInt8} {k : ℕ} (h : bytes.length = k) :
    Reads room (take k) bytes bytes := by
  intro rest depth hroom
  have hle : k ≤ (bytes ++ rest).length := by
    rw [List.length_append]
    omega
  have hrun : (take k).run ⟨bytes ++ rest,depth⟩ =
      some ((bytes ++ rest).take k,⟨(bytes ++ rest).drop k,depth⟩) := if_pos hle
  rw [hrun, List.take_left' h, List.drop_left' h]

theorem readByte_reads (b : UInt8) : Reads room readByte [b] b := by
  have hread : Reads room (take 1) [b] [b] := take_reads rfl
  exact hread.map (fun bytes => bytes.headD 0)

theorem readType_reads {type : TType} (h : type.Known) : Reads room readType [type.code] type := by
  have hread := (@readByte_reads room type.code).map TType.ofCode
  rwa [ofCode_code h] at hread

theorem readInt_reads {k : ℕ} {v : ℤ} (h : Fits k v) : Reads room (readInt k) (writeInt k v) v := by
  have hread := (@take_reads room _ _ (writeInt_length k v)).map toInt
  rwa [toInt_writeInt h] at hread

theorem fits_four {n : ℕ} (h : n < 2 ^ 31) : Fits 4 n := by
  constructor
  · norm_num
    omega
  · norm_num
    omega

theorem readSize_reads {n : ℕ} (h : n < 2 ^ 31) : Reads room readSize (writeInt 4 n) n :=
  (readInt_reads (fits_four h)).bind_nil (fun _ _ _ => rfl)

theorem readString_reads {bytes : List UInt8} (h : bytes.length < 2 ^ 31) :
    Reads room readString (writeInt 4 bytes.length ++ bytes) bytes :=
  (readSize_reads h).bind (take_reads rfl)

theorem readFieldBegin_stop : Reads room readFieldBegin [0] (.stop,0) := by
  have hread := (@readByte_reads room 0).map TType.ofCode
  exact hread.bind_nil (fun _ _ _ => rfl)

/-- The header of a field. -/
def fieldBegin (type : TType) (id : ℤ) : List UInt8 := type.code :: writeInt 2 id

theorem readFieldBegin_reads {type : TType} {id : ℤ} (htype : type.Known) (hid : Fits 2 id) :
    Reads room readFieldBegin (fieldBegin type id) (type,id) := by
  have hstop : type ≠ .stop := by
    rintro rfl
    exact htype
  refine (@readType_reads room _ htype).bind ?_
  rw [if_neg hstop]
  have hread := (@readInt_reads room _ _ hid).map (fun id => (type,id))
  rwa [map_eq_pure_bind] at hread

/-! ## Messages -/

/-- The header of a message, with its version. -/
def messageBegin (h : MessageHeader) : List UInt8 :=
  [0x80,0x01,0,h.type.code] ++ (writeInt 4 h.name.length ++ h.name ++ writeInt 4 h.seqid)

/-- The message types that are sent. -/
def TMessageType.Known : TMessageType → Prop
  | .unknown _ => False
  | _ => True

theorem TMessageType.ofCode_code {type : TMessageType} (h : type.Known) :
    TMessageType.ofCode type.code = type := by
  cases type <;> first | rfl | exact absurd h id

theorem version_neg {type : TMessageType} (h : type.Known) : toInt [0x80,0x01,0,type.code] < 0 := by
  cases type <;> first | decide | exact absurd h id

theorem readMessageBegin_reads {h : MessageHeader} (htype : h.type.Known)
    (hname : h.name.length < 2 ^ 31) (hseqid : Fits 4 h.seqid) :
    Reads room readMessageBegin (messageBegin h) h := by
  have hword : Reads room (take 4) [0x80,0x01,0,h.type.code] [0x80,0x01,0,h.type.code] :=
    take_reads rfl
  refine hword.bind ?_
  rw [if_pos (version_neg htype), if_pos (by rfl)]
  refine (readString_reads hname).bind ?_
  have hcode : TMessageType.ofCode ([0x80,0x01,0,h.type.code].getD 3 0) = h.type :=
    TMessageType.ofCode_code htype
  have hread := (@readInt_reads room _ _ hseqid).map
    (fun seqid => (⟨h.name,h.type,seqid⟩ : MessageHeader))
  rw [map_eq_pure_bind] at hread
  rw [hcode]
  exact hread

/-! ## Structs -/

structure Field where
  type : TType
  id : ℤ
  value : List UInt8
deriving DecidableEq, Repr

def Field.bytes (f : Field) : List UInt8 := fieldBegin f.type f.id ++ f.value

def structBytes : List Field → List UInt8
  | [] => [0]
  | f :: fs => f.bytes ++ structBytes fs

structure Field.Valid (f : Field) : Prop where
  type : f.type.Known
  id : Fits 2 f.id

theorem length_lt_structBytes (fs : List Field) : fs.length < (structBytes fs).length := by
  induction fs with
  | nil => decide
  | cons f fs ih =>
    simp only [structBytes, Field.bytes, fieldBegin, List.length_cons, List.length_append]
    omega

/-- The loop of a struct reads its fields one after the other. -/
theorem readFields_reads {field : α → TType → ℤ → Reader Input α} {step : α → Field → α} {fuel : ℕ}
    {fs : List Field} (hvalid : ∀ f ∈ fs, f.Valid)
    (hfield : ∀ f ∈ fs, ∀ a, Reads room (field a f.type f.id) f.value (step a f))
    (hfuel : fs.length < fuel) (a : α) :
    Reads room (readFields readFieldBegin (pure ()) field fuel a) (structBytes fs)
      (fs.foldl step a) := by
  induction fs generalizing fuel a with
  | nil =>
    obtain ⟨fuel,rfl⟩ : ∃ n, fuel = n + 1 := ⟨fuel - 1,by simp at hfuel; omega⟩
    exact readFieldBegin_stop.bind_nil (fun _ _ _ => rfl)
  | cons f fs ih =>
    obtain ⟨fuel,rfl⟩ : ∃ n, fuel = n + 1 := ⟨fuel - 1,by simp at hfuel; omega⟩
    obtain ⟨htype,hid⟩ := hvalid f List.mem_cons_self
    have hstop : f.type ≠ .stop := by
      intro h
      rw [h] at htype
      exact htype
    rw [structBytes, Field.bytes, List.append_assoc]
    refine (readFieldBegin_reads htype hid).bind ?_
    dsimp only
    rw [if_neg hstop]
    have hbody : Reads room (field a f.type f.id >>= fun a => pure () >>= fun _ =>
        pure (ForInStep.yield a)) f.value (.yield (step a f)) :=
      (hfield f List.mem_cons_self a).bind_nil ((Reads.pure ()).nil_bind (.pure _))
    exact hbody.bind (ih (fun g hg => hvalid g (List.mem_cons_of_mem f hg))
      (fun g hg => hfield g (List.mem_cons_of_mem f hg)) (by simpa using hfuel) (step a f))

/-! ## Values of any type -/

/-- The bytes are a value of this type, nested at most `room` deep. -/
inductive Encodes : ℕ → TType → List UInt8 → Prop
  | scalar {room : ℕ} {type : TType} {bytes : List UInt8} (h : type.width = some bytes.length) :
      Encodes (room + 1) type bytes
  | string {room : ℕ} {bytes : List UInt8} (h : bytes.length < 2 ^ 31) :
      Encodes (room + 1) .string (writeInt 4 bytes.length ++ bytes)
  | struct {room : ℕ} {fs : List Field} (hvalid : ∀ f ∈ fs, f.Valid)
      (h : ∀ f ∈ fs, Encodes room f.type f.value) : Encodes (room + 1) .struct (structBytes fs)
  | map {room : ℕ} {key value : TType} {entries : List (List UInt8 × List UInt8)}
      (hkey : key.Known) (hvalue : value.Known) (hlength : entries.length < 2 ^ 31)
      (h : ∀ e ∈ entries, Encodes room key e.1) (h' : ∀ e ∈ entries, Encodes room value e.2) :
      Encodes (room + 1) .map (key.code :: value.code :: (writeInt 4 entries.length ++
        (entries.map (fun e => e.1 ++ e.2)).flatten))
  | set {room : ℕ} {type : TType} {items : List (List UInt8)} (htype : type.Known)
      (hlength : items.length < 2 ^ 31) (h : ∀ item ∈ items, Encodes room type item) :
      Encodes (room + 1) .set (type.code :: (writeInt 4 items.length ++ items.flatten))
  | list {room : ℕ} {type : TType} {items : List (List UInt8)} (htype : type.Known)
      (hlength : items.length < 2 ^ 31) (h : ∀ item ∈ items, Encodes room type item) :
      Encodes (room + 1) .list (type.code :: (writeInt 4 items.length ++ items.flatten))

theorem Encodes.mono {type : TType} {bytes : List UInt8} (h : Encodes room type bytes) {more : ℕ}
    (hmore : room ≤ more) : Encodes more type bytes := by
  induction h generalizing more with
  | scalar h =>
    obtain ⟨more,rfl⟩ : ∃ n, more = n + 1 := ⟨more - 1,by omega⟩
    exact .scalar h
  | string h =>
    obtain ⟨more,rfl⟩ : ∃ n, more = n + 1 := ⟨more - 1,by omega⟩
    exact .string h
  | struct hvalid _ ih =>
    obtain ⟨more,rfl⟩ : ∃ n, more = n + 1 := ⟨more - 1,by omega⟩
    exact .struct hvalid (fun f hf => ih f hf (by omega))
  | map hkey hvalue hlength _ _ ih ih' =>
    obtain ⟨more,rfl⟩ : ∃ n, more = n + 1 := ⟨more - 1,by omega⟩
    exact .map hkey hvalue hlength (fun e he => ih e he (by omega)) (fun e he => ih' e he (by omega))
  | set htype hlength _ ih =>
    obtain ⟨more,rfl⟩ : ∃ n, more = n + 1 := ⟨more - 1,by omega⟩
    exact .set htype hlength (fun item hitem => ih item hitem (by omega))
  | list htype hlength _ ih =>
    obtain ⟨more,rfl⟩ : ∃ n, more = n + 1 := ⟨more - 1,by omega⟩
    exact .list htype hlength (fun item hitem => ih item hitem (by omega))

theorem times_reads {f : Reader Input Unit} {items : List (List UInt8)}
    (h : ∀ item ∈ items, Reads room f item ()) :
    Reads room (times f items.length) items.flatten () := by
  induction items with
  | nil => exact .pure ()
  | cons item items ih =>
    exact (h item List.mem_cons_self).bind (ih (fun x hx => h x (List.mem_cons_of_mem item hx)))

/-- `skip` goes past a value of any type. -/
theorem skip_reads {type : TType} {bytes : List UInt8} (h : Encodes room type bytes) {more : ℕ} :
    Reads more (skip room type) bytes () := by
  induction h generalizing more with
  | @scalar room type bytes h =>
    have hskip : skip (room + 1) type = (take bytes.length >>= fun _ => pure ()) := by
      cases type <;> simp_all [TType.width, skip]
    rw [hskip]
    exact (take_reads rfl).discard
  | string h => exact (readString_reads h).discard
  | @struct room fs hvalid _ ih =>
    intro rest depth hdepth
    have hfuel : fs.length < (structBytes fs ++ rest).length + 1 := by
      have := length_lt_structBytes fs
      rw [List.length_append]
      omega
    exact @readFields_reads Unit more (fun _ type _ => skip room type) (fun _ _ => ()) _ _ hvalid
      (fun f hf _ => ih f hf) hfuel () rest depth hdepth
  | map hkey hvalue hlength _ _ ih ih' =>
    refine (readType_reads hkey).bind ((readType_reads hvalue).bind
      ((readSize_reads hlength).bind ?_))
    have hitems := @times_reads more (skip _ _ >>= fun _ => skip _ _) _ (fun item hitem => by
      obtain ⟨e,he,rfl⟩ := List.mem_map.mp hitem
      exact (ih e he).bind (ih' e he))
    rwa [List.length_map] at hitems
  | set htype hlength _ ih =>
    exact (readType_reads htype).bind ((readSize_reads hlength).bind (times_reads
      (fun item hitem => ih item hitem)))
  | list htype hlength _ ih =>
    exact (readType_reads htype).bind ((readSize_reads hlength).bind (times_reads
      (fun item hitem => ih item hitem)))

theorem skipValue_reads {type : TType} {bytes : List UInt8} (h : Encodes room type bytes) :
    Reads room (skipValue type) bytes () := by
  intro rest depth hdepth
  exact skip_reads (h.mono (show room ≤ recursionLimit - depth by omega)) rest depth hdepth

/-! ## Writing -/

/-- A writer appends these bytes, if there is this much room for nesting. -/
def Writes (room : ℕ) (f : Reader Output Unit) (bytes : List UInt8) : Prop :=
  ∀ pending depth, depth + room ≤ recursionLimit →
    f.run ⟨pending,depth⟩ = some ((),⟨pending ++ bytes,depth⟩)

theorem Writes.pure : Writes room (pure ()) [] := by
  intro pending depth hroom
  rw [List.append_nil]
  rfl

theorem put_writes (bytes : List UInt8) : Writes room (Output.put bytes) bytes := fun _ _ _ => rfl

theorem putString_writes {bytes : List UInt8} (h : bytes.length < 2 ^ 31) :
    Writes room (Output.putString bytes) (writeInt 4 bytes.length ++ bytes) := by
  rw [Output.putString, if_pos h]
  exact put_writes _

theorem Writes.bind {f g : Reader Output Unit} {p q : List UInt8} (hf : Writes room f p)
    (hg : Writes room g q) : Writes room (do f; g) (p ++ q) := by
  intro pending depth hroom
  rw [run_bind_some (hf pending depth hroom), hg _ depth hroom, List.append_assoc]

theorem Writes.mono {f : Reader Output Unit} {p : List UInt8} (hf : Writes room f p) {more : ℕ}
    (h : room ≤ more) : Writes more f p := by
  intro pending depth hroom
  exact hf pending depth (by omega)

/-- A writer inside a struct has one level less. -/
theorem Writes.inside {f : Reader Output Unit} {p : List UInt8} (hf : Writes room f p) :
    Writes (room + 1) (do Output.enter; f; Output.leave) p := by
  intro pending depth hroom
  have henter : Output.enter.run ⟨pending,depth⟩ = some ((),⟨pending,depth + 1⟩) :=
    if_pos (show depth < recursionLimit by omega)
  rw [run_bind_some henter, run_bind_some (hf pending (depth + 1) (by omega))]
  rfl

/-! ## Locality -/

theorem take_local (k : ℕ) : Local Input.extend (take k) := by
  intro i bytes t h more
  obtain ⟨hle,heq⟩ := Option.ite_none_right_eq_some.mp h
  cases heq
  have hle' : k ≤ (i.extend more).unread.length := by
    simp only [Input.extend, List.length_append]
    omega
  have hrun : (take k).run (i.extend more) = some ((i.extend more).unread.take k,
      { i.extend more with unread := (i.extend more).unread.drop k }) := if_pos hle'
  rw [hrun]
  simp only [Input.extend, List.take_append_of_le_length hle, List.drop_append_of_le_length hle]

theorem enter_local : Local Input.extend enter := by
  intro i a t h more
  obtain ⟨hlt,heq⟩ := Option.ite_none_right_eq_some.mp h
  cases heq
  exact if_pos hlt

theorem leave_local : Local Input.extend leave := by
  intro i a t h more
  cases h
  rfl

theorem readByte_local : Local Input.extend readByte := (take_local 1).map _

theorem readType_local : Local Input.extend readType := readByte_local.map _

theorem readInt_local (k : ℕ) : Local Input.extend (readInt k) := (take_local k).map _

theorem readSize_local : Local Input.extend readSize := by
  refine (readInt_local 4).bind (fun n => ?_)
  split
  · exact .failure
  · exact .pure _

theorem readString_local : Local Input.extend readString := readSize_local.bind take_local

theorem readFieldBegin_local : Local Input.extend readFieldBegin := by
  refine readType_local.bind (fun type => ?_)
  split
  · exact .pure _
  · exact (readInt_local 2).bind (fun id => .pure (type,id))

theorem readMessageBegin_local : Local Input.extend readMessageBegin := by
  refine (take_local 4).bind (fun word => ?_)
  split
  · split
    · exact readString_local.bind (fun name => (readInt_local 4).bind (fun seqid => .pure _))
    · exact .failure
  · exact (take_local _).bind (fun name => readByte_local.bind (fun type =>
      (readInt_local 4).bind (fun seqid => .pure _)))

section Loop
variable {σ : Type} {fieldBegin : Reader σ (TType × ℤ)} {fieldEnd : Reader σ Unit}
    {field : α → TType → ℤ → Reader σ α}

theorem readFields_local {ι : Type} {extend : σ → ι → σ} (hbegin : Local extend fieldBegin)
    (hend : Local extend fieldEnd) (hfield : ∀ a type id, Local extend (field a type id)) (fuel : ℕ)
    (a : α) : Local extend (readFields fieldBegin fieldEnd field fuel a) :=
  untilStop_local hbegin
    (fun a header => (hfield a header.1 header.2).bind (fun _ => hend.bind (fun _ => .pure _))) fuel a

theorem readFields_follows {τ : Type} {view : σ → τ} {p : τ → Prop} {begin' : Reader τ (TType × ℤ)}
    {end' : Reader τ Unit} {field' : α → TType → ℤ → Reader τ α}
    (hbegin : Follows view p fieldBegin begin') (hend : Follows view p fieldEnd end')
    (hfield : ∀ a type id, Follows view p (field a type id) (field' a type id)) (fuel : ℕ) (a : α) :
    Follows view p (readFields fieldBegin fieldEnd field fuel a)
      (readFields begin' end' field' fuel a) :=
  untilStop_follows hbegin
    (fun a header => (hfield a header.1 header.2).bind (fun _ => hend.bind (fun _ => .pure _))) fuel a

theorem readFields_moves {R : σ → σ → Prop} [Std.Refl R] [IsTrans σ R] (hbegin : Moves R fieldBegin)
    (hend : Moves R fieldEnd) (hfield : ∀ a type id, Moves R (field a type id)) (fuel : ℕ) (a : α) :
    Moves R (readFields fieldBegin fieldEnd field fuel a) :=
  untilStop_moves hbegin
    (fun a header => (hfield a header.1 header.2).bind (fun _ => hend.bind (fun _ => .pure _))) fuel a

end Loop

theorem skip_local (room : ℕ) (type : TType) : Local Input.extend (skip room type) := by
  induction room generalizing type with
  | zero => exact .failure
  | succ room ih =>
    cases type with
    | struct =>
      intro i a t h more
      have hfields := readFields_local readFieldBegin_local (.pure ())
        (fun _ type _ => ih type) (i.unread.length + 1) () i a t h more
      refine untilStop_mono ?_ hfields
      simp only [Input.extend, List.length_append]
      omega
    | map =>
      exact readType_local.bind (fun key => readType_local.bind (fun value =>
        readSize_local.bind (times_local ((ih key).bind (fun _ => ih value)))))
    | set => exact readType_local.bind (fun type => readSize_local.bind (times_local (ih type)))
    | list => exact readType_local.bind (fun type => readSize_local.bind (times_local (ih type)))
    | string => exact readString_local.bind (fun _ => .pure ())
    | bool | byte | i16 | i32 | i64 | double => exact (take_local _).bind (fun _ => .pure ())
    | stop | void | unknown => exact .failure

theorem skipValue_local (type : TType) : Local Input.extend (skipValue type) := by
  intro i a t h more
  exact skip_local (recursionLimit - i.depth) type i a t h more

/-- No part of the bytes that is shorter than all of them is read. -/
theorem Reads.none_of_short {f : Reader Input α} {bytes : List UInt8} {a : α}
    (hf : Reads room f bytes a) (hlocal : Local Input.extend f) {part : List UInt8}
    (hpart : part <+: bytes) (hshort : part ≠ bytes) {depth : ℕ}
    (hdepth : depth + room ≤ recursionLimit) : f.run ⟨part,depth⟩ = none := by
  obtain ⟨more,rfl⟩ := hpart
  have hfull : f.run (Input.extend ⟨part,depth⟩ more) = some (a,⟨[],depth⟩) := by
    have hrun := hf [] depth hdepth
    rwa [List.append_nil] at hrun
  apply hlocal.none_of_short hfull
  intro t ht
  have hmore : t.unread ++ more = [] := congrArg Input.unread ht
  obtain ⟨_,rfl⟩ := List.append_eq_nil_iff.mp hmore
  simp at hshort

/-! ## Nothing is put back -/

/-- The unread bytes after a reader are the last ones of those before it. -/
def After (i j : Input) : Prop := j.unread <:+ i.unread

instance : Std.Refl After := ⟨fun i => List.suffix_refl i.unread⟩

instance : IsTrans Input After := ⟨fun _ _ _ h h' => h'.trans h⟩

theorem take_after (k : ℕ) : Moves After (take k) := by
  intro i bytes t h
  obtain ⟨hle,heq⟩ := Option.ite_none_right_eq_some.mp h
  cases heq
  exact List.drop_suffix k i.unread

theorem enter_after : Moves After enter := by
  intro i a t h
  obtain ⟨hlt,heq⟩ := Option.ite_none_right_eq_some.mp h
  cases heq
  exact List.suffix_refl i.unread

theorem leave_after : Moves After leave := by
  intro i a t h
  cases h
  exact List.suffix_refl i.unread

theorem readByte_after : Moves After readByte := (take_after 1).map _

theorem readType_after : Moves After readType := readByte_after.map _

theorem readInt_after (k : ℕ) : Moves After (readInt k) := (take_after k).map _

theorem readSize_after : Moves After readSize := by
  refine (readInt_after 4).bind (fun n => ?_)
  split
  · exact .failure
  · exact .pure _

theorem readString_after : Moves After readString := readSize_after.bind take_after

theorem readFieldBegin_after : Moves After readFieldBegin := by
  refine readType_after.bind (fun type => ?_)
  split
  · exact .pure _
  · exact (readInt_after 2).bind (fun id => .pure (type,id))

theorem readMessageBegin_after : Moves After readMessageBegin := by
  refine (take_after 4).bind (fun word => ?_)
  split
  · split
    · exact readString_after.bind (fun name => (readInt_after 4).bind (fun seqid => .pure _))
    · exact .failure
  · exact (take_after _).bind (fun name => readByte_after.bind (fun type =>
      (readInt_after 4).bind (fun seqid => .pure _)))

theorem skip_after (room : ℕ) (type : TType) : Moves After (skip room type) := by
  induction room generalizing type with
  | zero => exact .failure
  | succ room ih =>
    cases type with
    | struct =>
      intro i a t h
      exact readFields_moves readFieldBegin_after (.pure ()) (fun _ type _ => ih type)
        (i.unread.length + 1) () i a t h
    | map =>
      exact readType_after.bind (fun key => readType_after.bind (fun value =>
        readSize_after.bind (times_moves ((ih key).bind (fun _ => ih value)))))
    | set => exact readType_after.bind (fun type => readSize_after.bind (times_moves (ih type)))
    | list => exact readType_after.bind (fun type => readSize_after.bind (times_moves (ih type)))
    | string => exact readString_after.bind (fun _ => .pure ())
    | bool | byte | i16 | i32 | i64 | double => exact (take_after _).bind (fun _ => .pure ())
    | stop | void | unknown => exact .failure

theorem skipValue_after (type : TType) : Moves After (skipValue type) := by
  intro i a t h
  exact skip_after (recursionLimit - i.depth) type i a t h

end RelayBench.BinaryProtocol
