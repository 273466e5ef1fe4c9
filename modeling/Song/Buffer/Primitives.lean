import Song.Buffer
import Song.Lib.Cursor

/-!
# The other primitive codecs (`buffer.cpp`)

The codecs that only generated code uses, beside those of `Song.Buffer`. A float is its
bit pattern. Every codec has two lemmas: its decoder reads back what its encoder writes
(`reads_…`), and takes nothing but an encoding of what it returns (`takes_…`); of `bool`
only the first holds.
-/

namespace Song

open Cursor (Reads Takes)

def encodeBool (v : Bool) : Bytes := [if v then 1 else 0]

def encodeI8 (v : Int8) : Bytes := encodeU8 v.toUInt8

def encodeI16 (v : Int16) : Bytes := encodeU16 v.toUInt16

def encodeU64 (v : UInt64) : Bytes := leBytes 8 v.toNat

def encodeI64 (v : Int64) : Bytes := encodeU64 v.toUInt64

def encodeF32 (bits : UInt32) : Bytes := encodeU32 bits

def encodeF64 (bits : UInt64) : Bytes := encodeU64 bits

def kMaxBytesSize : Nat := 1024 * 1024

def encodeBytes (val : Bytes) : Except Exn Bytes :=
  if val.length > kMaxBytesSize then
    .error (.runtimeError (lit "Byte array too large to encode"))
  else .ok (encodeU32 (UInt32.ofNat val.length) ++ val)

def decodeBool : Dec Bool := do
  return (← decodeU8) != 0

def decodeI8 : Dec Int8 := do
  return (← decodeU8).toInt8

def decodeI16 : Dec Int16 := do
  return (← decodeU16).toInt16

def decodeU64 : Dec UInt64 := do
  return UInt64.ofNat (leNat (← Buffer.read 8))

def decodeI64 : Dec Int64 := do
  return (← decodeU64).toInt64

def decodeF32 : Dec UInt32 := decodeU32

def decodeF64 : Dec UInt64 := decodeU64

def decodeBytes : Dec Bytes := do
  let len ← decodeU32
  if len.toNat > kMaxBytesSize then
    throw (.runtimeError (lit "Byte array too large"))
  Buffer.read len.toNat

/-! ## Words -/

theorem reads_read {w : Bytes} {n : Nat} (h : w.length = n) :
    Reads Buffer.cut (Buffer.read n) w w := fun _ _ => Buffer.read_cut h

theorem takes_read (n : Nat) :
    Takes Buffer.cut (Buffer.read n) fun w a => w = a ∧ a.length = n := by
  intro pre rest a s h
  by_cases hn : rest.length < n
  · rw [Buffer.read_short hn] at h
    cases h
  · have hl : (rest.take n).length = n := by
      rw [List.length_take]; omega
    have hr := reads_read hl pre (rest.drop n)
    rw [List.take_append_drop, h] at hr
    cases hr
    exact ⟨_, _, (List.take_append_drop n rest).symm, rfl, rfl, hl⟩

section
variable {α : Type} {n : Nat} {toNat : α → Nat} {ofNat : Nat → α}

theorem reads_word (hlt : ∀ v, toNat v < 256 ^ n) (hinv : ∀ v, ofNat (toNat v) = v) (v : α) :
    Reads Buffer.cut (do return ofNat (leNat (← Buffer.read n))) (leBytes n (toNat v)) v := by
  have h := (reads_read (Words.length_leBytes n (toNat v))).map fun w => ofNat (leNat w)
  rwa [Words.leNat_leBytes (hlt v), hinv] at h

theorem takes_word (hinv : ∀ x, x < 256 ^ n → toNat (ofNat x) = x) :
    Takes Buffer.cut (do return ofNat (leNat (← Buffer.read n)))
      fun w v => leBytes n (toNat v) = w := by
  refine Takes.map ((takes_read n).mono fun w a ⟨hw, hl⟩ => ?_)
  have hlt : leNat a < 256 ^ n := hl ▸ Words.leNat_lt a
  rw [hinv _ hlt, hw, ← hl]
  exact Words.leBytes_leNat a

end

theorem reads_decodeU8 (v : UInt8) : Reads Buffer.cut decodeU8 (encodeU8 v) v :=
  fun _ _ => decodeU8_cut v

theorem reads_decodeU16 (v : UInt16) : Reads Buffer.cut decodeU16 (encodeU16 v) v :=
  fun _ _ => decodeU16_cut v

theorem reads_decodeU32 (v : UInt32) : Reads Buffer.cut decodeU32 (encodeU32 v) v :=
  fun _ _ => decodeU32_cut v

theorem reads_decodeU64 (v : UInt64) : Reads Buffer.cut decodeU64 (encodeU64 v) v :=
  reads_word UInt64.toNat_lt (fun _ => UInt64.ofNat_toNat) v

theorem takes_decodeU8 : Takes Buffer.cut decodeU8 fun w v => encodeU8 v = w := by
  have h : Takes Buffer.cut decodeU8 fun w v => leBytes 1 v.toNat = w :=
    takes_word fun x hx => by rw [UInt8.toNat_ofNat']; omega
  refine h.mono fun w v hw => ?_
  rw [← hw, encodeU8, leBytes, leBytes, UInt8.ofNat_toNat]

theorem takes_decodeU16 : Takes Buffer.cut decodeU16 fun w v => encodeU16 v = w :=
  takes_word fun x hx => by rw [UInt16.toNat_ofNat']; omega

theorem takes_decodeU32 : Takes Buffer.cut decodeU32 fun w v => encodeU32 v = w :=
  takes_word fun x hx => by rw [UInt32.toNat_ofNat']; omega

theorem takes_decodeU64 : Takes Buffer.cut decodeU64 fun w v => encodeU64 v = w :=
  takes_word fun x hx => by rw [UInt64.toNat_ofNat']; omega

/-! ## Signed words, floats and booleans -/

theorem reads_decodeBool (v : Bool) : Reads Buffer.cut decodeBool (encodeBool v) v := by
  have h := (reads_decodeU8 (if v then 1 else 0)).map (· != 0)
  cases v <;> exact h

theorem reads_decodeI8 (v : Int8) : Reads Buffer.cut decodeI8 (encodeI8 v) v := by
  have h := (reads_decodeU8 v.toUInt8).map UInt8.toInt8
  rwa [Int8.toInt8_toUInt8] at h

theorem reads_decodeI16 (v : Int16) : Reads Buffer.cut decodeI16 (encodeI16 v) v := by
  have h := (reads_decodeU16 v.toUInt16).map UInt16.toInt16
  rwa [Int16.toInt16_toUInt16] at h

theorem reads_decodeI32 (v : Int32) : Reads Buffer.cut decodeI32 (encodeI32 v) v :=
  fun _ _ => decodeI32_cut v

theorem reads_decodeI64 (v : Int64) : Reads Buffer.cut decodeI64 (encodeI64 v) v := by
  have h := (reads_decodeU64 v.toUInt64).map UInt64.toInt64
  rwa [Int64.toInt64_toUInt64] at h

theorem takes_decodeI8 : Takes Buffer.cut decodeI8 fun w v => encodeI8 v = w :=
  Takes.map (takes_decodeU8.mono fun w v hw => by rwa [encodeI8, UInt8.toUInt8_toInt8])

theorem takes_decodeI16 : Takes Buffer.cut decodeI16 fun w v => encodeI16 v = w :=
  Takes.map (takes_decodeU16.mono fun w v hw => by rwa [encodeI16, UInt16.toUInt16_toInt16])

theorem takes_decodeI32 : Takes Buffer.cut decodeI32 fun w v => encodeI32 v = w :=
  Takes.map (takes_decodeU32.mono fun w v hw => by rwa [encodeI32, UInt32.toUInt32_toInt32])

theorem takes_decodeI64 : Takes Buffer.cut decodeI64 fun w v => encodeI64 v = w :=
  Takes.map (takes_decodeU64.mono fun w v hw => by rwa [encodeI64, UInt64.toUInt64_toInt64])

/-! ## Length-prefixed byte strings -/

/-- `decode_string` and `decode_bytes`: a length, checked, and that many bytes. -/
def decodePrefixed (limit : Nat) (tooLarge : Exn) : Dec Bytes := do
  let len ← decodeU32
  if len.toNat > limit then
    throw tooLarge
  Buffer.read len.toNat

theorem decodeString_eq :
    decodeString = decodePrefixed kMaxStringSize (.runtimeError (lit "String too large")) := rfl

theorem decodeBytes_eq :
    decodeBytes = decodePrefixed kMaxBytesSize (.runtimeError (lit "Byte array too large")) := rfl

theorem toNat_count {k : Nat} (h : k < 2 ^ 32) : (UInt32.ofNat k).toNat = k := by
  rw [UInt32.toNat_ofNat']; omega

section
variable {limit : Nat} {tooLarge : Exn}

theorem reads_decodePrefixed {val : Bytes} (hl : limit < 2 ^ 32) (h : val.length ≤ limit) :
    Reads Buffer.cut (decodePrefixed limit tooLarge)
      (encodeU32 (UInt32.ofNat val.length) ++ val) val := by
  have hn : (UInt32.ofNat val.length).toNat = val.length := toNat_count (by omega)
  refine (reads_decodeU32 (UInt32.ofNat val.length)).bind ?_
  rw [hn, if_neg (by omega)]
  exact reads_read rfl

theorem takes_decodePrefixed :
    Takes Buffer.cut (decodePrefixed limit tooLarge) fun w val =>
      val.length ≤ limit ∧ encodeU32 (UInt32.ofNat val.length) ++ val = w := by
  refine takes_decodeU32.bind fun w len hw => ?_
  by_cases hlen : len.toNat > limit
  · rw [if_pos hlen]
    exact Takes.bind (.throw _) fun _ _ (h : False) => h.elim
  · rw [if_neg hlen]
    refine (takes_read len.toNat).mono fun w' val ⟨hw', hl⟩ => ⟨by omega, ?_⟩
    rw [hl, UInt32.ofNat_toNat, hw, hw']

end

theorem reads_decodeString {val w : Bytes} (h : encodeString val = .ok w) :
    Reads Buffer.cut decodeString w val := by
  unfold encodeString at h
  split at h
  · cases h
  · cases h
    rw [decodeString_eq]
    exact reads_decodePrefixed (by decide) (by omega)

theorem reads_decodeBytes {val w : Bytes} (h : encodeBytes val = .ok w) :
    Reads Buffer.cut decodeBytes w val := by
  unfold encodeBytes at h
  split at h
  · cases h
  · cases h
    rw [decodeBytes_eq]
    exact reads_decodePrefixed (by decide) (by omega)

theorem takes_decodeString : Takes Buffer.cut decodeString fun w val => encodeString val = .ok w := by
  rw [decodeString_eq]
  refine takes_decodePrefixed.mono fun w val ⟨hl, hw⟩ => ?_
  rw [encodeString, if_neg (by omega), hw]

theorem takes_decodeBytes : Takes Buffer.cut decodeBytes fun w val => encodeBytes val = .ok w := by
  rw [decodeBytes_eq]
  refine takes_decodePrefixed.mono fun w val ⟨hl, hw⟩ => ?_
  rw [encodeBytes, if_neg (by omega), hw]

end Song
