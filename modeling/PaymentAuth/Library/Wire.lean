import PaymentAuth.Library.Bytes
import PaymentAuth.Library.Emission

/-! Readers that consume a byte string from the front, and the encodings they
accept. -/

namespace Library

/-- A reader: it returns a value and the bytes after it. -/
abbrev Reader (ε α : Type) := Emission Bytes ε α

namespace Reader

variable {ε α β γ : Type}

/-- A reader accepts exactly the encodings of the valid values, and consumes no more. -/
def Canonical (read : Reader ε α) (encode : α → Bytes) (Valid : α → Prop) : Prop :=
  ∀ bytes value rest, read bytes = .ok (value, rest) ↔ Valid value ∧ bytes = encode value ++ rest

/-- A valid value is read back from its encoding. -/
theorem Canonical.read_encode {read : Reader ε α} {encode : α → Bytes} {Valid : α → Prop}
    (canonical : Canonical read encode Valid) (value : α) (valid : Valid value) (rest : Bytes) :
    read (encode value ++ rest) = .ok (value, rest) :=
  (canonical _ _ _).mpr ⟨valid, rfl⟩

/-- What a canonical reader reads is told apart whatever follows it. -/
theorem Canonical.append_inj {read : Reader ε α} {encode : α → Bytes} {Valid : α → Prop}
    (canonical : Canonical read encode Valid) {left right : α} {s t : Bytes} (first : Valid left)
    (second : Valid right) (same : encode left ++ s = encode right ++ t) : left = right ∧ s = t := by
  have reads := (canonical (encode left ++ s) left s).mpr ⟨first, rfl⟩
  have reads' := (canonical (encode left ++ s) right t).mpr ⟨second, same⟩
  cases reads.symm.trans reads'
  exact ⟨rfl, rfl⟩

theorem Canonical.congr {read : Reader ε α} {encode encode' : α → Bytes} {Valid Valid' : α → Prop}
    (canonical : Canonical read encode Valid) (valid : ∀ value, Valid value ↔ Valid' value)
    (encodes : ∀ value, Valid value → encode value = encode' value) : Canonical read encode' Valid' := by
  intro bytes value rest
  rw [canonical, ← valid]
  exact and_congr_right fun held => by rw [encodes value held]

/-- Read one value, then the rest of a record with that value. -/
theorem Canonical.bind {read : Reader ε α} {next : α → Reader ε γ} {encode : α → Bytes} {encode' : γ → Bytes}
    {Valid : α → Prop} {Valid' : γ → Prop} (field : γ → α) (first : Canonical read encode Valid)
    (second : ∀ value, Valid value → Canonical (next value) encode' fun whole => field whole = value ∧ Valid' whole) :
    Canonical (read >>= next) (fun whole => encode (field whole) ++ encode' whole)
      fun whole => Valid (field whole) ∧ Valid' whole := by
  intro bytes whole rest
  rw [Emission.bind_ok_iff]
  constructor
  · rintro ⟨value, middle, readFirst, readSecond⟩
    obtain ⟨valid, rfl⟩ := (first _ _ _).mp readFirst
    obtain ⟨⟨rfl, valid'⟩, rfl⟩ := (second value valid _ _ _).mp readSecond
    exact ⟨⟨valid, valid'⟩, (List.append_assoc _ _ _).symm⟩
  · rintro ⟨⟨valid, valid'⟩, rfl⟩
    exact ⟨_, _, (first _ _ _).mpr ⟨valid, List.append_assoc _ _ _⟩,
      (second _ valid _ _ _).mpr ⟨⟨rfl, valid'⟩, rfl⟩⟩

theorem Canonical.pure (value : α) : Canonical (Pure.pure value : Reader ε α) (fun _ => []) (· = value) := by
  intro bytes result rest
  rw [Emission.pure_ok_iff, List.nil_append]
  exact and_congr_left fun _ => eq_comm

/-- Takes bytes from the front. -/
def readBytes (malformed : ε) (len : ℕ) : Reader ε Bytes := fun bytes =>
  if bytes.length < len then .error malformed else .ok (bytes.take len, bytes.drop len)

def readU8 (malformed : ε) : Reader ε UInt8 := do
  let raw ← readBytes malformed 1
  liftM (Outcome.expect raw[0]? : Outcome ε UInt8)

def readU16 (malformed : ε) : Reader ε UInt16 := do
  let raw ← readBytes malformed 2
  return UInt16.ofNat (fromBeBytes raw)

def readU32 (malformed : ε) : Reader ε UInt32 := do
  let raw ← readBytes malformed 4
  return UInt32.ofNat (fromBeBytes raw)

def readU64 (malformed : ε) : Reader ε UInt64 := do
  let raw ← readBytes malformed 8
  return UInt64.ofNat (fromBeBytes raw)

/-- Reads a given number of values. -/
def readMany (read : Reader ε α) : ℕ → Reader ε (List α)
  | 0 => return []
  | count + 1 => do
    let value ← read
    let others ← readMany read count
    return value :: others

/-- Reads a count, then that many values. -/
def readList (malformed : ε) (read : Reader ε α) : Reader ε (List α) := do
  let count ← readU32 malformed
  readMany read count.toNat

/-- A list after its count; the count keeps its low 32 bits. -/
def encodeList (encode : α → Bytes) (items : List α) : Bytes :=
  toBeBytes 4 items.length ++ items.flatMap encode

theorem readBytes_canonical (malformed : ε) (len : ℕ) :
    Canonical (readBytes malformed len) id fun bytes => bytes.length = len := by
  intro bytes value rest
  unfold readBytes
  constructor
  · intro reads
    split at reads
    · cases reads
    · rename_i enough
      cases reads
      refine ⟨?_, (List.take_append_drop len bytes).symm⟩
      change (bytes.take len).length = len
      rw [List.length_take]
      omega
  · rintro ⟨rfl, rfl⟩
    simp

/-- A reader of values that are byte strings of one length. -/
theorem readSized_canonical (malformed : ε) {len : ℕ} {make : (raw : Bytes) → raw.length = len → α}
    {toBytes : α → Bytes}
    (sized : ∀ value, (toBytes value).length = len) (made : ∀ value, make (toBytes value) (sized value) = value)
    (kept : ∀ raw size, toBytes (make raw size) = raw) :
    Canonical (do
      let raw ← readBytes malformed len
      if size : raw.length = len then return make raw size
      else liftM (.error malformed : Outcome ε α) : Reader ε α) toBytes fun _ => True := by
  intro bytes value rest
  simp only [Emission.bind_ok_iff, (readBytes_canonical malformed len) _ _ _, true_and]
  constructor
  · rintro ⟨raw, _, ⟨size, rfl⟩, returned⟩
    rw [dif_pos size, Emission.pure_ok_iff] at returned
    obtain ⟨rfl, rfl⟩ := returned
    rw [kept, id]
  · rintro rfl
    refine ⟨toBytes value, rest, ⟨sized value, rfl⟩, ?_⟩
    rw [dif_pos (sized value), Emission.pure_ok_iff]
    exact ⟨made value, rfl⟩

theorem readU8_canonical (malformed : ε) : Canonical (readU8 malformed) (fun byte => [byte]) fun _ => True := by
  intro bytes byte rest
  simp only [readU8, Emission.bind_ok_iff, (readBytes_canonical malformed 1) _ _ _, Emission.liftM_ok_iff,
    Outcome.expect_ok_iff, id, true_and]
  constructor
  · rintro ⟨raw, _, ⟨size, rfl⟩, found, rfl⟩
    obtain ⟨only, rfl⟩ := List.length_eq_one_iff.mp size
    cases found
    rfl
  · rintro rfl
    exact ⟨[byte], rest, ⟨rfl, rfl⟩, rfl, rfl⟩

/-- Fixed-width numbers are read back by any pair of casts that keeps them. -/
private theorem readNumber_canonical {α : Type} (malformed : ε) (width : ℕ) {ofNat : ℕ → α} {toNat : α → ℕ}
    (small : ∀ value, toNat value < 256 ^ width) (cast : ∀ n, n < 256 ^ width → toNat (ofNat n) = n)
    (back : ∀ value, ofNat (toNat value) = value) :
    Canonical (do
      let raw ← readBytes malformed width
      return ofNat (fromBeBytes raw) : Reader ε α) (fun value => toBeBytes width (toNat value)) fun _ => True := by
  intro bytes value rest
  simp only [Emission.bind_ok_iff, (readBytes_canonical malformed width) _ _ _, Emission.pure_ok_iff, id, true_and]
  constructor
  · rintro ⟨raw, _, ⟨size, rfl⟩, rfl, rfl⟩
    have bound := fromBeBytes_lt raw
    rw [size] at bound
    rw [cast _ bound, ← size, toBeBytes_fromBeBytes]
  · rintro rfl
    refine ⟨_, rest, ⟨toBeBytes_length width (toNat value), rfl⟩, ?_, rfl⟩
    rw [fromBeBytes_toBeBytes_of_lt (small value), back]

theorem readU16_canonical (malformed : ε) :
    Canonical (readU16 malformed) (fun value => toBeBytes 2 value.toNat) fun _ => True :=
  readNumber_canonical malformed 2 UInt16.toNat_lt (fun _ => UInt16.toNat_ofNat_of_lt') fun _ => UInt16.ofNat_toNat

theorem readU32_canonical (malformed : ε) :
    Canonical (readU32 malformed) (fun value => toBeBytes 4 value.toNat) fun _ => True :=
  readNumber_canonical malformed 4 UInt32.toNat_lt (fun _ => UInt32.toNat_ofNat_of_lt') fun _ => UInt32.ofNat_toNat

theorem readU64_canonical (malformed : ε) :
    Canonical (readU64 malformed) (fun value => toBeBytes 8 value.toNat) fun _ => True :=
  readNumber_canonical malformed 8 UInt64.toNat_lt (fun _ => UInt64.toNat_ofNat_of_lt') fun _ => UInt64.ofNat_toNat

theorem readMany_canonical {read : Reader ε α} {encode : α → Bytes} {Valid : α → Prop}
    (canonical : Canonical read encode Valid) (count : ℕ) :
    Canonical (readMany read count) (List.flatMap encode) fun items => items.length = count ∧ ∀ item ∈ items, Valid item := by
  induction count with
  | zero =>
    intro bytes items rest
    rw [readMany, Emission.pure_ok_iff]
    constructor
    · rintro ⟨rfl, rfl⟩
      simp
    · rintro ⟨⟨none, _⟩, rfl⟩
      obtain rfl := List.length_eq_zero_iff.mp none
      exact ⟨rfl, rfl⟩
  | succ count ih =>
    intro bytes items rest
    simp only [readMany, Emission.bind_ok_iff, canonical _ _ _, ih _ _ _, Emission.pure_ok_iff]
    constructor
    · rintro ⟨value, _, ⟨valid, rfl⟩, others, _, ⟨⟨size, each⟩, rfl⟩, rfl, rfl⟩
      exact ⟨⟨by rw [List.length_cons, size], List.forall_mem_cons.mpr ⟨valid, each⟩⟩, by simp⟩
    · rintro ⟨⟨size, each⟩, rfl⟩
      cases items with
      | nil => simp at size
      | cons value others =>
        obtain ⟨valid, each'⟩ := List.forall_mem_cons.mp each
        exact ⟨value, _, ⟨valid, by rw [List.flatMap_cons, List.append_assoc]⟩, others, rest,
          ⟨⟨by simpa using size, each'⟩, rfl⟩, rfl, rfl⟩

theorem readList_canonical (malformed : ε) {read : Reader ε α} {encode : α → Bytes} {Valid : α → Prop}
    (canonical : Canonical read encode Valid) :
    Canonical (readList malformed read) (encodeList encode)
      fun items => items.length < 2 ^ 32 ∧ ∀ item ∈ items, Valid item := by
  intro bytes items rest
  simp only [readList, Emission.bind_ok_iff, (readU32_canonical malformed) _ _ _,
    (readMany_canonical canonical _) _ _ _, true_and, encodeList]
  constructor
  · rintro ⟨count, _, rfl, ⟨size, each⟩, rfl⟩
    rw [size]
    exact ⟨⟨count.toNat_lt, each⟩, (List.append_assoc _ _ _).symm⟩
  · rintro ⟨⟨small, each⟩, rfl⟩
    refine ⟨UInt32.ofNat items.length, _, ?_, ⟨?_, each⟩, rfl⟩
    · rw [UInt32.toNat_ofNat_of_lt' small, List.append_assoc]
    · rw [UInt32.toNat_ofNat_of_lt' small]

/-- A reader that splits the bytes as another reader does and interprets the parts it finds. -/
def Interprets (read : Reader ε α) (split : Reader ε β) (Holds : β → α → Prop) : Prop :=
  ∀ bytes value rest, read bytes = .ok (value, rest) ↔ ∃ part, split bytes = .ok (part, rest) ∧ Holds part value

theorem Interprets.readMany {read : Reader ε α} {split : Reader ε β} {Holds : β → α → Prop}
    (interprets : Interprets read split Holds) (count : ℕ) :
    Interprets (readMany read count) (readMany split count) (List.Forall₂ Holds) := by
  induction count with
  | zero =>
    intro bytes values rest
    simp only [Reader.readMany, Emission.pure_ok_iff]
    constructor
    · rintro ⟨rfl, rfl⟩
      exact ⟨[], ⟨rfl, rfl⟩, .nil⟩
    · rintro ⟨_, ⟨rfl, rfl⟩, holds⟩
      exact ⟨(List.forall₂_nil_left_iff.mp holds).symm, rfl⟩
  | succ count ih =>
    intro bytes values rest
    simp only [Reader.readMany, Emission.bind_ok_iff, interprets _ _ _, ih _ _ _, Emission.pure_ok_iff]
    constructor
    · rintro ⟨value, middle, ⟨part, first, holds⟩, values, _, ⟨parts, others, each⟩, rfl, rfl⟩
      exact ⟨part :: parts, ⟨part, middle, first, parts, _, others, rfl, rfl⟩, .cons holds each⟩
    · rintro ⟨_, ⟨part, middle, first, parts, _, others, rfl, rfl⟩, holds⟩
      obtain ⟨value, values, here, each, rfl⟩ := List.forall₂_cons_left_iff.mp holds
      exact ⟨value, middle, ⟨part, first, here⟩, values, _, ⟨parts, others, each⟩, rfl, rfl⟩

/-- Reads a value that takes up the whole byte string. -/
def readWhole (trailing : ε) (read : Reader ε α) (bytes : Bytes) : Outcome ε α := do
  let (value, rest) ← read bytes
  Outcome.reject (rest.length ≠ 0) trailing
  .ok value

section Whole

variable {read : Reader ε α} {encode : α → Bytes} {Valid : α → Prop} {trailing : ε}

theorem Canonical.readWhole_ok_iff (canonical : Canonical read encode Valid) {bytes : Bytes} {value : α} :
    readWhole trailing read bytes = .ok value ↔ Valid value ∧ bytes = encode value := by
  simp only [readWhole, Outcome.bind_ok_iff, Prod.exists, canonical _ _ _, Outcome.reject_ok_iff, exists_const, not_not,
    List.length_eq_zero_iff, Outcome.ok.injEq]
  constructor
  · rintro ⟨_, _, ⟨valid, rfl⟩, rfl, rfl⟩
    exact ⟨valid, List.append_nil _⟩
  · rintro ⟨valid, rfl⟩
    exact ⟨value, [], ⟨valid, (List.append_nil _).symm⟩, rfl, rfl⟩

end Whole

end Reader

end Library
