import Song.Error
import Song.Lib.Eff

/-!
# Buffers and primitive codecs (`buffer.hpp`, `buffer.cpp`)

A `Buffer` is its bytes and a read cursor that never passes them. Decoders run
on a buffer and keep the cursor where an exception left it (`Dec`). An encoder
`encode_x(buf, v)` appends to its buffer; here it is the bytes it appends.

`Buffer.cut pre rest` is the buffer that has read `pre` and has `rest` left; the
codec lemmas are stated on it, so that a run of decoders rewrites from left to
right.
-/

namespace Song

structure Buffer where
  data : Bytes
  readPos : Nat
  le : readPos ≤ data.length
  deriving DecidableEq

namespace Buffer

def empty : Buffer := ⟨[], 0, Nat.le_refl 0⟩

/-- A buffer holding `bs`, cursor at the start. -/
def ofBytes (bs : Bytes) : Buffer := ⟨bs, 0, Nat.zero_le _⟩

def size (b : Buffer) : Nat := b.data.length

def remaining (b : Buffer) : Nat := b.data.length - b.readPos

def resetRead (b : Buffer) : Buffer := ofBytes b.data

/-- `Buffer::write`. -/
def write (b : Buffer) (bs : Bytes) : Buffer :=
  ⟨b.data ++ bs, b.readPos, by rw [List.length_append]; exact Nat.le_add_right_of_le b.le⟩

/-- The bytes not read yet. -/
def unread (b : Buffer) : Bytes := b.data.drop b.readPos

/-- Cursor after `pre`, `rest` still unread. -/
def cut (pre rest : Bytes) : Buffer := ⟨pre ++ rest, pre.length, by simp⟩

@[simp] theorem cut_data (pre rest : Bytes) : (cut pre rest).data = pre ++ rest := rfl

@[simp] theorem cut_readPos (pre rest : Bytes) : (cut pre rest).readPos = pre.length := rfl

@[simp] theorem cut_unread (pre rest : Bytes) : (cut pre rest).unread = rest := by
  simp [unread]

@[simp] theorem cut_remaining (pre rest : Bytes) : (cut pre rest).remaining = rest.length := by
  simp [remaining]

theorem ofBytes_eq_cut (bs : Bytes) : ofBytes bs = cut [] bs := rfl

theorem eq_cut (b : Buffer) : b = cut (b.data.take b.readPos) b.unread := by
  obtain ⟨d, p, h⟩ := b
  simp only [cut, unread, List.take_append_drop, mk.injEq, true_and, List.length_take]
  omega

end Buffer

/-- A decoder: reads from a buffer, throws, moves the cursor. -/
abbrev Dec := EStateM Exn Buffer

def underflow : Exn :=
  .runtimeError (lit "Buffer underflow: attempted to read beyond buffer size")

namespace Buffer

def read (len : Nat) : Dec Bytes := fun b =>
  if h : len ≤ b.data.length ∧ b.readPos ≤ b.data.length - len then
    .ok (b.unread.take len) { b with readPos := b.readPos + len, le := by omega }
  else .error underflow b

theorem read_cut {pre w rest : Bytes} {len : Nat} (h : w.length = len) :
    (read len).run (cut pre (w ++ rest)) = .ok w (cut (pre ++ w) rest) := by
  have hc : len ≤ (pre ++ (w ++ rest)).length ∧
      pre.length ≤ (pre ++ (w ++ rest)).length - len := by simp; omega
  simp only [EStateM.run, read, cut_data, cut_readPos, hc, and_self, ↓reduceDIte, cut_unread]
  simp [cut, ← h]

theorem read_short {pre rest : Bytes} {len : Nat} (h : rest.length < len) :
    (read len).run (cut pre rest) = .error underflow (cut pre rest) := by
  have hc : ¬ (len ≤ (pre ++ rest).length ∧ pre.length ≤ (pre ++ rest).length - len) := by
    simp only [List.length_append]; omega
  simp only [EStateM.run, read, cut_data, cut_readPos, hc, ↓reduceDIte]

end Buffer

section
variable {α β τ : Type}

/-- Decode from the front of `payload` and go on with what is left of it. -/
def decodeThen (d : Dec β) (payload : Buffer) (k : β → Buffer → EStateM Exn τ α) :
    EStateM Exn τ α := fun s =>
  match d.run payload with
  | .ok b rest => (k b rest).run s
  | .error e _ => .error e s

theorem decodeThen_ok {d : Dec β} {payload rest : Buffer} {b : β}
    {k : β → Buffer → EStateM Exn τ α} (h : d.run payload = .ok b rest) :
    decodeThen d payload k = k b rest := by
  funext s
  simp only [EStateM.run] at h
  simp only [decodeThen, EStateM.run, h]

theorem decodeThen_error {d : Dec β} {payload rest : Buffer} {e : Exn}
    {k : β → Buffer → EStateM Exn τ α} (h : d.run payload = .error e rest) :
    decodeThen d payload k = throw e := by
  funext s
  simp only [EStateM.run] at h
  simp only [decodeThen, EStateM.run, h]
  rfl

theorem decodeThen_ok_iff {d : Dec β} {payload : Buffer} {k : β → Buffer → EStateM Exn τ α}
    {s s' : τ} {a : α} :
    (decodeThen d payload k).run s = .ok a s' ↔
      ∃ b rest, d.run payload = .ok b rest ∧ (k b rest).run s = .ok a s' := by
  cases h : d.run payload with
  | ok b rest =>
    rw [decodeThen_ok h]
    refine ⟨fun hk => ⟨b, rest, rfl, hk⟩, fun ⟨_, _, he, hk⟩ => ?_⟩
    cases he
    exact hk
  | error e rest =>
    rw [decodeThen_error h]
    exact ⟨fun hk => (by cases hk), fun ⟨_, _, he, _⟩ => by cases he⟩

theorem within_decodeThen {R : τ → τ → Prop} (hr : ∀ s, R s s) {d : Dec β} {payload : Buffer}
    {k : β → Buffer → EStateM Exn τ α} (hk : ∀ b rest, Eff.Within R (k b rest)) :
    Eff.Within R (decodeThen d payload k) := by
  cases hd : d.run payload with
  | ok b rest =>
    rw [decodeThen_ok hd]
    exact hk b rest
  | error e rest =>
    rw [decodeThen_error hd]
    exact .throw hr e

end

/-! ## Encoders -/

def encodeU8 (v : UInt8) : Bytes := [v]

def encodeU16 (v : UInt16) : Bytes := leBytes 2 v.toNat

def encodeU32 (v : UInt32) : Bytes := leBytes 4 v.toNat

def encodeI32 (v : Int32) : Bytes := encodeU32 v.toUInt32

def kMaxStringSize : Nat := 1024 * 1024

def encodeString (val : Str) : Except Exn Bytes :=
  if val.length > kMaxStringSize then
    .error (.runtimeError (lit "String too large to encode"))
  else .ok (encodeU32 (UInt32.ofNat val.length) ++ val)

@[simp] theorem length_encodeU8 (v : UInt8) : (encodeU8 v).length = 1 := rfl

@[simp] theorem length_encodeU16 (v : UInt16) : (encodeU16 v).length = 2 := by
  simp [encodeU16]

@[simp] theorem length_encodeU32 (v : UInt32) : (encodeU32 v).length = 4 := by
  simp [encodeU32]

@[simp] theorem length_encodeI32 (v : Int32) : (encodeI32 v).length = 4 := by
  simp [encodeI32]

/-! ## Decoders -/

def decodeU8 : Dec UInt8 := do
  return UInt8.ofNat (leNat (← Buffer.read 1))

def decodeU16 : Dec UInt16 := do
  return UInt16.ofNat (leNat (← Buffer.read 2))

def decodeU32 : Dec UInt32 := do
  return UInt32.ofNat (leNat (← Buffer.read 4))

def decodeI32 : Dec Int32 := do
  return (← decodeU32).toInt32

def decodeString : Dec Str := do
  let len ← decodeU32
  if len.toNat > kMaxStringSize then
    throw (.runtimeError (lit "String too large"))
  Buffer.read len.toNat

section
variable {pre rest : Bytes}

theorem decodeU8_cut (v : UInt8) :
    decodeU8.run (.cut pre (encodeU8 v ++ rest)) = .ok v (.cut (pre ++ encodeU8 v) rest) := by
  rw [decodeU8, Eff.run_bind_ok (Buffer.read_cut (length_encodeU8 v))]
  simp [encodeU8, leNat]

theorem decodeU16_cut (v : UInt16) :
    decodeU16.run (.cut pre (encodeU16 v ++ rest)) = .ok v (.cut (pre ++ encodeU16 v) rest) := by
  rw [decodeU16, Eff.run_bind_ok (Buffer.read_cut (length_encodeU16 v))]
  have hv : leNat (leBytes 2 v.toNat) = v.toNat := Words.leNat_leBytes v.toNat_lt
  simp [encodeU16, hv]

theorem decodeU32_cut (v : UInt32) :
    decodeU32.run (.cut pre (encodeU32 v ++ rest)) = .ok v (.cut (pre ++ encodeU32 v) rest) := by
  rw [decodeU32, Eff.run_bind_ok (Buffer.read_cut (length_encodeU32 v))]
  have hv : leNat (leBytes 4 v.toNat) = v.toNat := Words.leNat_leBytes v.toNat_lt
  simp [encodeU32, hv]

theorem decodeI32_cut (v : Int32) :
    decodeI32.run (.cut pre (encodeI32 v ++ rest)) = .ok v (.cut (pre ++ encodeI32 v) rest) := by
  rw [decodeI32, encodeI32, Eff.run_bind_ok (decodeU32_cut _)]
  simp

theorem decodeString_cut {text : Str} (h : text.length ≤ kMaxStringSize) :
    decodeString.run (.cut pre (encodeU32 (UInt32.ofNat text.length) ++ (text ++ rest))) =
      .ok text (.cut (pre ++ encodeU32 (UInt32.ofNat text.length) ++ text) rest) := by
  have hn : (UInt32.ofNat text.length).toNat = text.length := by
    simp only [kMaxStringSize] at h
    rw [UInt32.toNat_ofNat']
    omega
  have hm : ¬ (UInt32.ofNat text.length).toNat > kMaxStringSize := by omega
  rw [decodeString, Eff.run_bind_ok (decodeU32_cut _)]
  simp only [hm, ↓reduceIte]
  exact Buffer.read_cut hn.symm

end

/-! ## Decoders of a fixed size -/

/-- `d` reads exactly `n` bytes, its value depending on them alone, or throws when
fewer are left. -/
structure Fixed {α : Type} (d : Dec α) (n : Nat) : Prop where
  takes : ∀ w : Bytes, w.length = n →
    ∃ a, ∀ pre rest, d.run (.cut pre (w ++ rest)) = .ok a (.cut (pre ++ w) rest)
  short : ∀ pre rest, rest.length < n → ∃ b, d.run (.cut pre rest) = .error underflow b

namespace Fixed

theorem read (n : Nat) : Fixed (Buffer.read n) n where
  takes w h := ⟨w, fun _ _ => Buffer.read_cut h⟩
  short _ _ h := ⟨_, Buffer.read_short h⟩

theorem pure {α : Type} (a : α) : Fixed (pure a) 0 where
  takes w h := ⟨a, fun pre rest => by
    rw [List.length_eq_zero_iff.mp h, List.nil_append, List.append_nil]; rfl⟩
  short _ _ h := absurd h (Nat.not_lt_zero _)

theorem bind {α β : Type} {d : Dec α} {f : α → Dec β} {m n : Nat} (hd : Fixed d m)
    (hf : ∀ a, Fixed (f a) n) : Fixed (d >>= f) (m + n) where
  takes w h := by
    obtain ⟨a, ha⟩ := hd.takes (w.take m) (by simp; omega)
    obtain ⟨b, hb⟩ := (hf a).takes (w.drop m) (by simp; omega)
    refine ⟨b, fun pre rest => ?_⟩
    have e : w ++ rest = w.take m ++ (w.drop m ++ rest) := by
      rw [← List.append_assoc, List.take_append_drop]
    rw [e, Eff.run_bind_ok (ha pre _), hb, List.append_assoc, List.take_append_drop]
  short pre rest h := by
    by_cases hm : rest.length < m
    · obtain ⟨b, hb⟩ := hd.short pre rest hm
      exact ⟨b, Eff.run_bind_error hb⟩
    · obtain ⟨a, ha⟩ := hd.takes (rest.take m) (by simp; omega)
      have e : rest = rest.take m ++ rest.drop m := (List.take_append_drop m rest).symm
      obtain ⟨b, hb⟩ := (hf a).short (pre ++ rest.take m) (rest.drop m) (by simp; omega)
      exact ⟨b, by rw [e, Eff.run_bind_ok (ha pre _)]; exact hb⟩

/-- The only exception of a fixed-size decoder is the underflow. -/
theorem ends {α : Type} {d : Dec α} {n : Nat} (h : Fixed d n) (b : Buffer) :
    Eff.Ends d b (fun _ _ => True) fun e _ => e = underflow := by
  rw [b.eq_cut]
  by_cases hn : b.unread.length < n
  · obtain ⟨b', hb⟩ := h.short (b.data.take b.readPos) b.unread hn
    exact .of_error hb rfl
  · obtain ⟨a, ha⟩ := h.takes (b.unread.take n) (by simp; omega)
    have hr := ha (b.data.take b.readPos) (b.unread.drop n)
    rw [List.take_append_drop] at hr
    exact .of_ok hr trivial

theorem decodeU8 : Fixed decodeU8 1 := (read 1).bind fun _ => pure _

theorem decodeU16 : Fixed decodeU16 2 := (read 2).bind fun _ => pure _

theorem decodeU32 : Fixed decodeU32 4 := (read 4).bind fun _ => pure _

theorem decodeI32 : Fixed decodeI32 4 := decodeU32.bind fun _ => pure _

end Fixed

/-! ## Every long enough byte string starts with an encoding -/

theorem exists_encodeU16 {bs : Bytes} (h : 2 ≤ bs.length) :
    ∃ v rest, bs = encodeU16 v ++ rest := by
  have hl : (bs.take 2).length = 2 := by simp; omega
  have hlt := Words.leNat_lt (bs.take 2)
  have hle := Words.leBytes_leNat (bs.take 2)
  rw [hl] at hlt hle
  refine ⟨UInt16.ofNat (leNat (bs.take 2)), bs.drop 2, ?_⟩
  have hv : (UInt16.ofNat (leNat (bs.take 2))).toNat = leNat (bs.take 2) := by
    rw [UInt16.toNat_ofNat']; omega
  rw [encodeU16, hv, hle, List.take_append_drop]

theorem exists_encodeU32 {bs : Bytes} (h : 4 ≤ bs.length) :
    ∃ v rest, bs = encodeU32 v ++ rest := by
  have hl : (bs.take 4).length = 4 := by simp; omega
  have hlt := Words.leNat_lt (bs.take 4)
  have hle := Words.leBytes_leNat (bs.take 4)
  rw [hl] at hlt hle
  refine ⟨UInt32.ofNat (leNat (bs.take 4)), bs.drop 4, ?_⟩
  have hv : (UInt32.ofNat (leNat (bs.take 4))).toNat = leNat (bs.take 4) := by
    rw [UInt32.toNat_ofNat']; omega
  rw [encodeU32, hv, hle, List.take_append_drop]

theorem exists_encodeI32 {bs : Bytes} (h : 4 ≤ bs.length) :
    ∃ v rest, bs = encodeI32 v ++ rest := by
  obtain ⟨v, rest, rfl⟩ := exists_encodeU32 h
  exact ⟨v.toInt32, rest, by simp [encodeI32]⟩

end Song
