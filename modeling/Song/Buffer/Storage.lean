import Song.Buffer
import Song.Lib.Run
import Mathlib.Logic.Equiv.Basic

/-!
# The storage of a buffer (`buffer.hpp`, `buffer.cpp`)

A `Buffer` holds its bytes inline while they fit in 4 KiB, and else in a block from `new`. Its
pointer `data_` is `none` for the inline storage, or the address of a block. Sizes are `size_t`:
a sum or product is taken modulo `2 ^ 64`. What `new` returns has arbitrary contents (`junk`), and
so has the inline storage at first. An access to storage that is not there, and a loop without an
end, are `stuck`.

Any number of buffers over one heap, in any order of calls, behave as so many pairs of a byte
list and a cursor, the buffers of `Song.Buffer` (`run_refines`).
-/

namespace Song.Storage

/-- The blocks that `new` has handed out and `delete` has not taken back, by their addresses. -/
structure Heap where
  blocks : Nat → Option Bytes
  next : Nat

structure RawBuffer where
  /-- `inline_`. -/
  internal : Bytes
  data : Option Nat
  size : Nat
  capacity : Nat
  readPos : Nat

/-- How a call on a buffer ends, with the heap and the buffer as it leaves them. -/
inductive Outcome (α : Type) where
  | ok (a : α) (h : Heap) (b : RawBuffer)
  | thrown (e : Exn) (h : Heap) (b : RawBuffer)
  | stuck

def kInlineSize : Nat := 4096

/-- `std::numeric_limits<size_t>::max()`. -/
def sizeMax : Nat := 2 ^ 64 - 1

/-- What is left of a result in a `size_t`. -/
def wrap (n : Nat) : Nat := n % 2 ^ 64

/-! ## The heap -/

section
variable (junk : Nat → Nat → UInt8)

/-- Bytes that nobody has written. -/
def indeterminate (addr : Nat) (n : Nat) : Bytes := (List.range n).map (junk addr)

namespace Heap

def empty : Heap := ⟨fun _ => none, 0⟩

/-- `new std::byte[n]`, where the contents are then overwritten from the front by `bytes`. -/
def new (h : Heap) (n : Nat) (bytes : Bytes) : Heap :=
  ⟨Function.update h.blocks h.next (some (Words.overwrite 0 bytes (indeterminate junk h.next n))),
    h.next + 1⟩

/-- `delete[]`. -/
def delete (h : Heap) (addr : Nat) : Option Heap :=
  if (h.blocks addr).isSome then some { h with blocks := Function.update h.blocks addr none }
  else none

/-- `if (!is_inline()) delete[] data_;` -/
def deleteData (h : Heap) : Option Nat → Option Heap
  | none => some h
  | some addr => h.delete addr

end Heap

/-! ## Calls on one buffer -/

namespace RawBuffer

/-- A buffer's constructor. -/
def create (addr : Nat) : RawBuffer := ⟨indeterminate junk addr kInlineSize, none, 0, kInlineSize, 0⟩

/-- The storage that `data_` points to. -/
def storage (b : RawBuffer) (h : Heap) : Option Bytes :=
  match b.data with
  | none => some b.internal
  | some addr => h.blocks addr

/-- `memcpy(data_ + off, …)`. -/
def poke (b : RawBuffer) (h : Heap) (off : Nat) (bytes : Bytes) : Option (Heap × RawBuffer) :=
  match b.storage h with
  | none => none
  | some old =>
    if off + bytes.length ≤ old.length then
      match b.data with
      | none => some (h, { b with internal := Words.overwrite off bytes b.internal })
      | some addr =>
        some ({ h with blocks := Function.update h.blocks addr (some (Words.overwrite off bytes old)) }, b)
    else none

/-- The doubling of `ensure_capacity`; a 64-bit number is doubled at most 64 times. -/
def grow : Nat → Nat → Nat → Option Nat
  | 0, _, _ => none
  | fuel + 1, required, capacity =>
    if capacity < required then grow fuel required (wrap (capacity * 2)) else some capacity

def ensureCapacity (h : Heap) (b : RawBuffer) (required : Nat) : Outcome Unit :=
  if required ≤ b.capacity then .ok () h b
  else if sizeMax / 2 < required then
    .thrown (.runtimeError (lit "Buffer capacity overflow: requested size too large")) h b
  else
    match grow 64 required b.capacity, b.storage h with
    | some newCapacity, some old =>
      match (h.new junk newCapacity (old.take b.size)).deleteData b.data with
      | some h' => .ok () h' { b with data := some h.next, capacity := newCapacity }
      | none => .stuck
    | _, _ => .stuck

def write (h : Heap) (b : RawBuffer) (bytes : Bytes) : Outcome Unit :=
  if 0 < bytes.length ∧ sizeMax - bytes.length < b.size then
    .thrown (.runtimeError (lit "Buffer write overflow: size + len exceeds maximum")) h b
  else
    match ensureCapacity junk h b (wrap (b.size + bytes.length)) with
    | .ok () h' b' =>
      match b'.poke h' b'.size bytes with
      | some (h'', b'') => .ok () h'' { b'' with size := wrap (b''.size + bytes.length) }
      | none => .stuck
    | .thrown e h' b' => .thrown e h' b'
    | .stuck => .stuck

def read (h : Heap) (b : RawBuffer) (len : Nat) : Outcome Bytes :=
  if len > b.size ∨ b.readPos > b.size - len then .thrown underflow h b
  else
    match b.storage h with
    | none => .stuck
    | some bytes =>
      if b.readPos + len ≤ bytes.length then
        .ok ((bytes.drop b.readPos).take len) h { b with readPos := wrap (b.readPos + len) }
      else .stuck

def reset (b : RawBuffer) : RawBuffer := { b with size := 0, readPos := 0 }

def resetRead (b : RawBuffer) : RawBuffer := { b with readPos := 0 }

/-- A buffer whose block has been deleted. -/
def discarded (b : RawBuffer) : RawBuffer := ⟨b.internal, none, 0, kInlineSize, 0⟩

/-- What both moves leave of their source. -/
def movedFrom (other : RawBuffer) : RawBuffer :=
  match other.data with
  | none => { other with size := 0, readPos := 0 }
  | some _ => { other with data := none, capacity := kInlineSize, size := 0, readPos := 0 }

/-- The move constructor, into inline storage with the contents `internal`. -/
def moveInto (internal : Bytes) (other : RawBuffer) : Option RawBuffer :=
  match other.data with
  | none =>
    if other.size ≤ kInlineSize then
      some { other with internal := Words.overwrite 0 (other.internal.take other.size) internal }
    else none
  | some _ => some { other with internal := internal }

/-- The move constructor. -/
def moveConstruct (addr : Nat) (other : RawBuffer) : Option (RawBuffer × RawBuffer) :=
  (moveInto (indeterminate junk addr kInlineSize) other).map (·, other.movedFrom)

/-- The move assignment from another buffer. -/
def moveAssign (h : Heap) (this other : RawBuffer) : Option (Heap × RawBuffer × RawBuffer) :=
  match h.deleteData this.data, moveInto this.internal other with
  | some h', some this' => some (h', this', other.movedFrom)
  | _, _ => none

end RawBuffer

end

/-! ## Growing -/

theorem inlineSize_mul_pow (k : Nat) : kInlineSize * 2 ^ k = 2 ^ (12 + k) := by
  rw [Nat.pow_add]
  rfl

/-- The loop ends, with the capacity doubled without a wrap until it is enough. -/
theorem grow_pow {required : Nat} (hr : required < 2 ^ 63) (fuel k : Nat) (hk : k ≤ 51)
    (hfuel : 51 < fuel + k) :
    ∃ m, k ≤ m ∧ m ≤ 51 ∧ RawBuffer.grow fuel required (kInlineSize * 2 ^ k) =
      some (kInlineSize * 2 ^ m) ∧ required ≤ kInlineSize * 2 ^ m := by
  induction fuel generalizing k with
  | zero => omega
  | succ fuel ih =>
    unfold RawBuffer.grow
    by_cases hlt : kInlineSize * 2 ^ k < required
    · have hk' : k < 51 := by
        rw [inlineSize_mul_pow] at hlt
        have := (Nat.pow_lt_pow_iff_right (by decide)).mp (Nat.lt_trans hlt hr)
        omega
      have hdouble : kInlineSize * 2 ^ k * 2 = kInlineSize * 2 ^ (k + 1) := by
        rw [Nat.pow_succ, Nat.mul_assoc]
      have hwrap : wrap (kInlineSize * 2 ^ (k + 1)) = kInlineSize * 2 ^ (k + 1) := by
        rw [inlineSize_mul_pow]
        refine Nat.mod_eq_of_lt ?_
        exact (Nat.pow_lt_pow_iff_right (by decide)).mpr (by omega)
      rw [if_pos hlt, hdouble, hwrap]
      obtain ⟨m, hm, hm', hg⟩ := ih (k + 1) (by omega) (by omega)
      exact ⟨m, by omega, hm', hg⟩
    · rw [if_neg hlt]
      exact ⟨k, Nat.le_refl k, hk, rfl, by omega⟩

/-! ## Buffers in order -/

namespace RawBuffer

variable (h : Heap) (b : RawBuffer)

/-- What holds of a buffer between two calls. -/
structure Ok : Prop where
  internal_length : b.internal.length = kInlineSize
  capacity_pow : ∃ k ≤ 51, b.capacity = kInlineSize * 2 ^ k
  inline_iff : b.data = none ↔ b.capacity = kInlineSize
  stored : ∃ bytes, b.storage h = some bytes ∧ bytes.length = b.capacity
  size_le : b.size ≤ b.capacity
  readPos_le : b.readPos ≤ b.size

/-- The bytes that have been written. -/
def contents : Bytes := ((b.storage h).getD []).take b.size

/-- The pair that a buffer stands for. -/
def view : Buffer := ⟨b.contents h, min b.readPos (b.contents h).length, Nat.min_le_right _ _⟩

variable {h b}

namespace Ok

variable (hb : b.Ok h)
include hb

theorem capacity_le : b.capacity ≤ 2 ^ 63 := by
  obtain ⟨k, hk, hc⟩ := hb.capacity_pow
  rw [hc, inlineSize_mul_pow]
  exact Nat.pow_le_pow_right (by decide) (by omega)

theorem length_contents : (b.contents h).length = b.size := by
  obtain ⟨bytes, hs, hlen⟩ := hb.stored
  have := hb.size_le
  rw [contents, hs, Option.getD_some, List.length_take_of_le (by omega)]

theorem view_readPos : (b.view h).readPos = b.readPos := by
  have := hb.readPos_le
  show min b.readPos (b.contents h).length = b.readPos
  rw [hb.length_contents]
  exact Nat.min_eq_left this

theorem block_ne_none {a : Nat} (ha : b.data = some a) : h.blocks a ≠ none := by
  obtain ⟨bytes, hs, -⟩ := hb.stored
  rw [storage, ha] at hs
  dsimp only at hs
  rw [hs]
  exact Option.some_ne_none bytes

/-- The doubling ends for every size that is let through, and none of its products wraps. -/
theorem grow {required : Nat} (hr : required ≤ sizeMax / 2) :
    ∃ m, RawBuffer.grow 64 required b.capacity = some (b.capacity * 2 ^ m) ∧
      b.capacity * 2 ^ m ≤ sizeMax ∧ required ≤ b.capacity * 2 ^ m := by
  obtain ⟨k, hk, hcap⟩ := hb.capacity_pow
  have hrequired : required < 2 ^ 63 := by
    simp only [sizeMax] at hr
    omega
  obtain ⟨m, hkm, hm, hgrow, hfits⟩ := grow_pow hrequired 64 k hk (by omega)
  have hmul : kInlineSize * 2 ^ m = b.capacity * 2 ^ (m - k) := by
    rw [hcap, Nat.mul_assoc, ← Nat.pow_add, Nat.add_sub_cancel' hkm]
  have hlt : kInlineSize * 2 ^ m < 2 ^ 64 := by
    rw [inlineSize_mul_pow]
    exact (Nat.pow_lt_pow_iff_right (by decide)).mpr (by omega)
  rw [← hcap, hmul] at hgrow
  rw [hmul] at hlt hfits
  exact ⟨m - k, hgrow, Nat.le_pred_of_lt hlt, hfits⟩

end Ok

/-- Of the heap only a buffer's own block matters. -/
theorem storage_congr {h' : Heap} (heq : ∀ a, b.data = some a → h'.blocks a = h.blocks a) :
    b.storage h' = b.storage h := by
  unfold storage
  split
  · rfl
  · next a ha => exact heq a ha

theorem Ok.congr {h' : Heap} (hb : b.Ok h) (heq : b.storage h' = b.storage h) : b.Ok h' :=
  { hb with stored := by rw [heq]; exact hb.stored }

theorem view_congr {h' : Heap} (heq : b.storage h' = b.storage h) : b.view h' = b.view h := by
  unfold view contents
  simp only [heq]

end RawBuffer

/-- What a call on one buffer does to the heap. A block that is not the buffer's, before or
after, is as it was; one that was the buffer's is gone or still its; a new one is new. -/
structure Keeps (h : Heap) (b : RawBuffer) (h' : Heap) (b' : RawBuffer) : Prop where
  frame : ∀ a, b.data ≠ some a → b'.data ≠ some a → h'.blocks a = h.blocks a
  gone : ∀ a, b.data = some a → b'.data ≠ some a → h'.blocks a = none
  fresh : ∀ a, b'.data = some a → b.data = some a ∨ h.next ≤ a ∧ a < h'.next
  next_le : h.next ≤ h'.next

theorem Keeps.refl_data {h : Heap} {b b' : RawBuffer} (hd : b'.data = b.data) : Keeps h b h b' where
  frame _ _ _ := rfl
  gone _ ha hne := absurd (hd.trans ha) hne
  fresh _ ha := .inl (hd ▸ ha)
  next_le := Nat.le_refl _

/-- A call that leaves the buffer the block it has. -/
theorem Keeps.trans {h h' h'' : Heap} {b b' b'' : RawBuffer} (hk : Keeps h b h' b')
    (hk' : Keeps h' b' h'' b'') (hd : b''.data = b'.data) : Keeps h b h'' b'' where
  frame a ha ha'' := by
    have ha' : b'.data ≠ some a := hd ▸ ha''
    rw [hk'.frame a ha' ha'', hk.frame a ha ha']
  gone a ha ha'' := by
    have ha' : b'.data ≠ some a := hd ▸ ha''
    rw [hk'.frame a ha' ha'', hk.gone a ha ha']
  fresh a ha'' := by
    rcases hk.fresh a (hd ▸ ha'') with h | ⟨hle, hlt⟩
    · exact .inl h
    · exact .inr ⟨hle, Nat.lt_of_lt_of_le hlt hk'.next_le⟩
  next_le := Nat.le_trans hk.next_le hk'.next_le

/-! ## What the calls do -/

section
variable (junk : Nat → Nat → UInt8) {h : Heap} {b : RawBuffer}

theorem length_indeterminate (addr n : Nat) : (indeterminate junk addr n).length = n := by
  rw [indeterminate, List.length_map, List.length_range]

namespace RawBuffer

/-- Inline storage with the cursor and the bytes at `n`. -/
theorem ok_inline {internal : Bytes} {size readPos : Nat} (hl : internal.length = kInlineSize)
    (hs : size ≤ kInlineSize) (hr : readPos ≤ size) :
    Ok h ⟨internal, none, size, kInlineSize, readPos⟩ where
  internal_length := hl
  capacity_pow := ⟨0, by decide, rfl⟩
  inline_iff := iff_of_true rfl rfl
  stored := ⟨internal, rfl, hl⟩
  size_le := hs
  readPos_le := hr

theorem ok_create (addr : Nat) : (create junk addr).Ok h :=
  ok_inline (length_indeterminate junk addr _) (Nat.zero_le _) (Nat.le_refl _)

theorem view_create (addr : Nat) : (create junk addr).view h = .empty := rfl

variable (hb : b.Ok h)
include hb

theorem Ok.capacity_of_inline (hd : b.data = none) : b.capacity = kInlineSize :=
  hb.inline_iff.mp hd

theorem Ok.movedFrom : b.movedFrom.Ok h ∧ b.movedFrom.data = none ∧ b.movedFrom.view h = .empty := by
  have hview : ∀ internal capacity, view h ⟨internal, none, 0, capacity, 0⟩ = .empty :=
    fun _ _ => rfl
  unfold RawBuffer.movedFrom
  split
  · next hd =>
    rw [hb.capacity_of_inline hd, hd]
    exact ⟨ok_inline hb.internal_length (Nat.zero_le _) (Nat.le_refl _), rfl, hview _ _⟩
  · exact ⟨ok_inline hb.internal_length (Nat.zero_le _) (Nat.le_refl _), rfl, hview _ _⟩

/-- A move keeps the pair. -/
theorem Ok.moveInto {internal : Bytes} (hl : internal.length = kInlineSize) :
    ∃ b', moveInto internal b = some b' ∧ b'.Ok h ∧ b'.data = b.data ∧ b'.view h = b.view h := by
  unfold RawBuffer.moveInto
  split
  · next hd =>
    have hcap := hb.capacity_of_inline hd
    have hsize := hb.size_le
    rw [hcap] at hsize
    have htake : (b.internal.take b.size).length = b.size :=
      List.length_take_of_le (by rw [hb.internal_length]; exact hsize)
    have hlen : (Words.overwrite 0 (b.internal.take b.size) internal).length = kInlineSize := by
      rw [Words.length_overwrite (by rw [htake, hl]; omega), hl]
    rw [if_pos hsize, hcap, hd]
    refine ⟨_, rfl, ok_inline hlen hsize hb.readPos_le, rfl, ?_⟩
    have hcontents : contents h ⟨Words.overwrite 0 (b.internal.take b.size) internal, none,
        b.size, kInlineSize, b.readPos⟩ = b.contents h := by
      have hover := @Words.take_overwrite 0 (b.internal.take b.size) internal (Nat.zero_le _)
      rw [Nat.zero_add, htake] at hover
      simp only [contents, storage, hd, Option.getD_some, hover, List.take_zero, List.nil_append]
    unfold view
    simp only [hcontents]
  · next a hd =>
    refine ⟨_, rfl, { hb with internal_length := hl, stored := ?_ }, rfl, ?_⟩
    · have hs := hb.stored
      simp only [storage, hd] at hs ⊢
      exact hs
    · simp only [view, contents, storage, hd]

/-- A read takes the next bytes if there are so many, and else throws. -/
theorem Ok.read (len : Nat) :
    if len ≤ (b.view h).remaining then
      ∃ b', RawBuffer.read h b len = .ok ((b.view h).unread.take len) h b' ∧ b'.Ok h ∧
        b'.data = b.data ∧ (b'.view h).data = (b.view h).data ∧
        (b'.view h).readPos = (b.view h).readPos + len
    else RawBuffer.read h b len = .thrown underflow h b := by
  have hsize := hb.size_le
  have hpos := hb.readPos_le
  have hcap := hb.capacity_le
  obtain ⟨bytes, hs, hlen⟩ := hb.stored
  have hremaining : (b.view h).remaining = b.size - b.readPos := by
    rw [Buffer.remaining, hb.view_readPos, ← hb.length_contents]
    rfl
  rw [hremaining]
  unfold RawBuffer.read
  split
  · next hle =>
    have hwrap : wrap (b.readPos + len) = b.readPos + len := Nat.mod_eq_of_lt (by omega)
    have hb' : Ok h { b with readPos := b.readPos + len } :=
      { hb with readPos_le := by dsimp only; omega, stored := ⟨bytes, hs, hlen⟩ }
    have hcontents : contents h { b with readPos := b.readPos + len } = b.contents h := rfl
    have hread : (bytes.drop b.readPos).take len = (b.view h).unread.take len := by
      have hc : b.contents h = bytes.take b.size := by rw [contents, hs, Option.getD_some]
      rw [Buffer.unread, hb.view_readPos]
      show _ = ((b.contents h).drop b.readPos).take len
      rw [hc, List.drop_take, List.take_take, Nat.min_eq_left (by omega)]
    rw [if_neg (by omega), hs]
    dsimp only
    rw [if_pos (by omega), hread, hwrap]
    exact ⟨_, rfl, hb', rfl, hcontents, by rw [hb'.view_readPos, hb.view_readPos]⟩
  · next hlt =>
    rw [if_pos (by omega)]

/-- Storing where there is room. -/
theorem Ok.poke {bytes : Bytes} (hfits : b.size + bytes.length ≤ b.capacity) :
    ∃ h' b', b.poke h b.size bytes = some (h', b') ∧ b'.size = b.size ∧ b'.data = b.data ∧
      Ok h' { b' with size := b.size + bytes.length } ∧
      Keeps h b h' { b' with size := b.size + bytes.length } ∧
      view h' { b' with size := b.size + bytes.length } = (b.view h).write bytes := by
  obtain ⟨old, hs, hlen⟩ := hb.stored
  have hpos := hb.readPos_le
  have hover : (Words.overwrite b.size bytes old).length = b.capacity := by
    rw [Words.length_overwrite (by omega), hlen]
  have htake : (Words.overwrite b.size bytes old).take (b.size + bytes.length) =
      b.contents h ++ bytes := by
    rw [Words.take_overwrite (by omega), contents, hs, Option.getD_some]
  -- what the buffer stands for once `bytes` are stored
  have hview : ∀ (h' : Heap) (b' : RawBuffer), b'.readPos = b.readPos →
      b'.contents h' = b.contents h ++ bytes → b'.view h' = (b.view h).write bytes := by
    intro h' b' hr hc
    have hl := hb.length_contents
    unfold view Buffer.write
    simp only [hc, hr, List.length_append, hl, Buffer.mk.injEq, true_and]
    omega
  unfold RawBuffer.poke
  rw [hs]
  dsimp only
  rw [if_pos (by omega)]
  cases hd : b.data with
  | none =>
    have hold : old = b.internal := by
      rw [storage, hd] at hs
      exact (Option.some.inj hs).symm
    subst hold
    refine ⟨_, _, rfl, rfl, rfl, ?_, .refl_data hd.symm, hview _ _ rfl ?_⟩
    · have hinline := hb.inline_iff
      rw [hd] at hinline
      refine { hb with
        internal_length := ?_, inline_iff := hinline, stored := ⟨_, rfl, hover⟩,
        size_le := hfits, readPos_le := ?_ }
      · rw [hover, ← hlen, hb.internal_length]
      · dsimp only
        omega
    · simp only [contents, storage, hd, Option.getD_some] at htake ⊢
      exact htake
  | some addr =>
    refine ⟨_, _, rfl, rfl, hd, ?_, ⟨?_, ?_, ?_, Nat.le_refl _⟩, hview _ _ rfl ?_⟩
    · refine { hb with stored := ⟨_, ?_, hover⟩, size_le := hfits, readPos_le := ?_ }
      · simp only [storage, hd, Function.update_self]
      · dsimp only
        omega
    · intro a ha _
      refine Function.update_of_ne ?_ _ _
      rintro rfl
      exact ha hd
    · exact fun a ha hne => absurd ha hne
    · exact fun a ha => .inl ha
    · rw [← htake]
      simp only [contents, storage, hd, Function.update_self, Option.getD_some]

omit hb in
/-- What is deleted is gone, the rest as it was. -/
theorem deleteData_eq {data : Option Nat} (hdata : ∀ a, data = some a → h.blocks a ≠ none) :
    ∃ h', h.deleteData data = some h' ∧ h'.next = h.next ∧
      (∀ a, data ≠ some a → h'.blocks a = h.blocks a) ∧ ∀ a, data = some a → h'.blocks a = none := by
  cases data with
  | none => exact ⟨h, rfl, rfl, fun _ _ => rfl, fun _ ha => by cases ha⟩
  | some addr =>
    have hsome : (h.blocks addr).isSome = true := Option.isSome_iff_ne_none.mpr (hdata addr rfl)
    refine ⟨_, if_pos hsome, rfl, fun a ha => ?_, fun a ha => ?_⟩
    · exact Function.update_of_ne (fun he => ha (congrArg some he.symm)) _ _
    · cases ha
      exact Function.update_self ..

/-- The capacity is grown to what is required, or the request is too large. -/
theorem Ok.ensureCapacity (hfresh : ∀ a, h.next ≤ a → h.blocks a = none) (required : Nat) :
    (∃ e, RawBuffer.ensureCapacity junk h b required = .thrown e h b ∧ 2 ^ 63 ≤ required) ∨
    ∃ h' b', RawBuffer.ensureCapacity junk h b required = .ok () h' b' ∧ b'.Ok h' ∧
      Keeps h b h' b' ∧ b'.view h' = b.view h ∧ b'.size = b.size ∧ required ≤ b'.capacity := by
  unfold RawBuffer.ensureCapacity
  by_cases hle : required ≤ b.capacity
  · rw [if_pos hle]
    exact .inr ⟨h, b, rfl, hb, .refl_data rfl, rfl, rfl, hle⟩
  rw [if_neg hle]
  by_cases hbig : sizeMax / 2 < required
  · rw [if_pos hbig]
    refine .inl ⟨_, rfl, ?_⟩
    simp only [sizeMax] at hbig
    omega
  rw [if_neg hbig]
  obtain ⟨k, hk, hcap⟩ := hb.capacity_pow
  obtain ⟨old, hs, hlen⟩ := hb.stored
  have hrequired : required < 2 ^ 63 := by
    simp only [sizeMax] at hbig
    omega
  obtain ⟨m, hkm, hm, hgrow, hfits⟩ := grow_pow hrequired 64 k hk (by omega)
  rw [← hcap] at hgrow
  have hgrown : b.capacity < kInlineSize * 2 ^ m := by omega
  have hsize := hb.size_le
  have hold : (old.take b.size).length = b.size := List.length_take_of_le (by omega)
  -- the new block, in front of it the bytes of the old storage
  have hblock : (h.new junk (kInlineSize * 2 ^ m) (old.take b.size)).blocks h.next =
      some (Words.overwrite 0 (old.take b.size) (indeterminate junk h.next (kInlineSize * 2 ^ m))) :=
    Function.update_self ..
  have hothers : ∀ a, a ≠ h.next →
      (h.new junk (kInlineSize * 2 ^ m) (old.take b.size)).blocks a = h.blocks a :=
    fun a ha => Function.update_of_ne ha _ _
  have hne : ∀ a, b.data = some a → a ≠ h.next := by
    rintro a ha rfl
    exact hb.block_ne_none ha (hfresh _ (Nat.le_refl _))
  obtain ⟨h', hdelete, hnext, hkeep, hgone⟩ := @deleteData_eq
    (h.new junk (kInlineSize * 2 ^ m) (old.take b.size)) b.data fun a ha => by
      rw [hothers a (hne a ha)]
      exact hb.block_ne_none ha
  have hkept : h'.blocks h.next =
      some (Words.overwrite 0 (old.take b.size) (indeterminate junk h.next (kInlineSize * 2 ^ m))) := by
    rw [hkeep _ fun ha => hne _ ha rfl, hblock]
  have hlength : (Words.overwrite 0 (old.take b.size)
      (indeterminate junk h.next (kInlineSize * 2 ^ m))).length = kInlineSize * 2 ^ m := by
    rw [Words.length_overwrite ?_, length_indeterminate]
    rw [hold, length_indeterminate]
    omega
  rw [hgrow, hs]
  dsimp only
  rw [hdelete]
  refine .inr ⟨h', _, rfl, ⟨hb.internal_length, ⟨m, hm, rfl⟩, ?_, ⟨_, hkept, hlength⟩, ?_,
    hb.readPos_le⟩, ⟨?_, ?_, ?_, ?_⟩, ?_, rfl, hfits⟩
  · refine iff_of_false (Option.some_ne_none _) fun h => ?_
    have hpow : kInlineSize ≤ b.capacity := by
      rw [hcap]
      exact Nat.le_mul_of_pos_right _ (Nat.pow_pos (by decide))
    dsimp only at h
    omega
  · dsimp only
    omega
  · intro a ha ha'
    rw [hkeep a ha, hothers a fun he => ha' (congrArg some he.symm)]
  · exact fun a ha _ => hgone a ha
  · intro a ha
    cases ha
    exact .inr ⟨Nat.le_refl _, by rw [hnext]; exact Nat.lt_succ_self _⟩
  · rw [hnext]
    exact Nat.le_succ _
  · have hcontents : contents h' { b with data := some h.next, capacity := kInlineSize * 2 ^ m } =
        b.contents h := by
      have hover := @Words.take_overwrite 0 (old.take b.size)
        (indeterminate junk h.next (kInlineSize * 2 ^ m)) (Nat.zero_le _)
      rw [Nat.zero_add, hold, List.take_zero, List.nil_append] at hover
      rw [contents, contents, hs, Option.getD_some]
      simp only [storage, hkept, Option.getD_some, hover]
    unfold view
    simp only [hcontents]

/-- A write appends, or throws where the buffer would be too large. -/
theorem Ok.write (hfresh : ∀ a, h.next ≤ a → h.blocks a = none) {bytes : Bytes}
    (hlen : bytes.length < 2 ^ 64) :
    (∃ e, RawBuffer.write junk h b bytes = .thrown e h b ∧ 2 ^ 63 ≤ b.size + bytes.length) ∨
    ∃ h' b', RawBuffer.write junk h b bytes = .ok () h' b' ∧ b'.Ok h' ∧ Keeps h b h' b' ∧
      b'.view h' = (b.view h).write bytes := by
  have hsize := hb.size_le
  have hcap := hb.capacity_le
  unfold RawBuffer.write
  by_cases hover : 0 < bytes.length ∧ sizeMax - bytes.length < b.size
  · rw [if_pos hover]
    refine .inl ⟨_, rfl, ?_⟩
    simp only [sizeMax] at hover
    omega
  have hwrap : wrap (b.size + bytes.length) = b.size + bytes.length := by
    refine Nat.mod_eq_of_lt ?_
    simp only [sizeMax] at hover
    omega
  rw [if_neg hover, hwrap]
  rcases hb.ensureCapacity junk hfresh (b.size + bytes.length) with
    ⟨e, he, hbig⟩ | ⟨h', b', he, hb', hk, hview, hsize', hfits⟩
  · rw [he]
    exact .inl ⟨e, rfl, hbig⟩
  · rw [← hsize'] at hfits
    obtain ⟨h'', b'', hpoke, hs, hd, hok, hk', hview'⟩ := hb'.poke hfits
    have hwrap' : wrap (b''.size + bytes.length) = b'.size + bytes.length := by
      rw [hs, hsize', hwrap]
    rw [he]
    dsimp only
    rw [hpoke]
    dsimp only
    rw [hwrap']
    exact .inr ⟨_, _, rfl, hok, hk.trans hk' hd, by rw [hview', hview]⟩

end RawBuffer

end

/-! ## Any number of buffers -/

structure Sys where
  heap : Heap
  bufs : Nat → Option RawBuffer

namespace Sys

def empty : Sys := ⟨.empty, fun _ => none⟩

/-- The pairs that the buffers stand for. -/
def view (s : Sys) : Nat → Option Buffer := fun i => (s.bufs i).map (·.view s.heap)

/-- The block that a buffer has. -/
def data (s : Sys) (i : Nat) : Option Nat := (s.bufs i).bind (·.data)

/-- The buffers are in order, and every block is that of one buffer. -/
structure Sound (s : Sys) : Prop where
  ok : ∀ i b, s.bufs i = some b → b.Ok s.heap
  fresh : ∀ a, s.heap.next ≤ a → s.heap.blocks a = none
  apart : ∀ i j a, s.data i = some a → s.data j = some a → i = j
  owned : ∀ a, s.heap.blocks a ≠ none → ∃ i, s.data i = some a

theorem data_of {s : Sys} {i : Nat} {b : RawBuffer} (hi : s.bufs i = some b) :
    s.data i = b.data := by
  rw [data, hi, Option.bind_some]

theorem data_self (h : Heap) (bufs : Nat → Option RawBuffer) (i : Nat) (b : RawBuffer) :
    Sys.data ⟨h, Function.update bufs i (some b)⟩ i = b.data :=
  data_of (Function.update_self ..)

theorem sound_empty : Sound empty where
  ok _ _ h := by cases h
  fresh _ _ := rfl
  apart _ _ _ h := by cases h
  owned _ h := absurd rfl h

namespace Sound

variable {s : Sys} {i j : Nat} {b b' c c' : RawBuffer} {h' : Heap} (hs : s.Sound)
include hs

theorem data_lt {a : Nat} (hi : s.data i = some a) : a < s.heap.next := by
  obtain ⟨b, hb, ha⟩ := Option.bind_eq_some_iff.mp hi
  by_contra hlt
  exact (hs.ok i b hb).block_ne_none ha (hs.fresh a (by omega))

/-- A block of another buffer is not the buffer's, before or after a call. -/
theorem data_other (hi : s.bufs i = some b) (hk : Keeps s.heap b h' b') {a : Nat} (hne : j ≠ i)
    (hj : s.data j = some a) : b.data ≠ some a ∧ b'.data ≠ some a := by
  have hd : b.data ≠ some a := fun hd => hne (hs.apart j i a hj ((data_of hi).trans hd))
  refine ⟨hd, fun hd' => ?_⟩
  rcases hk.fresh a hd' with h | ⟨hle, -⟩
  · exact hd h
  · have := hs.data_lt hj
    omega

/-- The other buffers' storage is as it was. -/
theorem storage_other (hi : s.bufs i = some b) (hk : Keeps s.heap b h' b') (hne : j ≠ i)
    (hj : s.bufs j = some c) : c.storage h' = c.storage s.heap := by
  refine RawBuffer.storage_congr fun a ha => ?_
  obtain ⟨hd, hd'⟩ := hs.data_other hi hk hne ((data_of hj).trans ha)
  exact hk.frame a hd hd'

/-- A call on one buffer. -/
theorem update (hi : s.bufs i = some b) (hb : b'.Ok h') (hk : Keeps s.heap b h' b') :
    Sound ⟨h', Function.update s.bufs i (some b')⟩ ∧
      Sys.view ⟨h', Function.update s.bufs i (some b')⟩ =
        Function.update s.view i (some (b'.view h')) := by
  have hself : Sys.data ⟨h', Function.update s.bufs i (some b')⟩ i = b'.data :=
    data_of (Function.update_self ..)
  have hother : ∀ {j}, j ≠ i →
      Sys.data ⟨h', Function.update s.bufs i (some b')⟩ j = s.data j := by
    intro j hne
    simp only [Sys.data, Function.update_of_ne hne]
  refine ⟨⟨?_, ?_, ?_, ?_⟩, ?_⟩
  · intro j c hj
    dsimp only at hj ⊢
    by_cases hne : j = i
    · subst hne
      rw [Function.update_self] at hj
      cases hj
      exact hb
    · rw [Function.update_of_ne hne] at hj
      exact (hs.ok j c hj).congr (hs.storage_other hi hk hne hj)
  · intro a ha
    dsimp only at ha ⊢
    have hd : b.data ≠ some a := by
      intro hd
      have hnext := hk.next_le
      have := hs.data_lt ((data_of hi).trans hd)
      omega
    have hd' : b'.data ≠ some a := by
      intro hd'
      rcases hk.fresh a hd' with h | ⟨-, hlt⟩
      · exact hd h
      · omega
    rw [hk.frame a hd hd', hs.fresh a (Nat.le_trans hk.next_le ha)]
  · intro j k a hj hk'
    by_cases hji : j = i <;> by_cases hki : k = i
    · rw [hji, hki]
    · rw [hji, hself] at hj
      rw [hother hki] at hk'
      exact absurd hj (hs.data_other hi hk hki hk').2
    · rw [hother hji] at hj
      rw [hki, hself] at hk'
      exact absurd hk' (hs.data_other hi hk hji hj).2
    · rw [hother hji] at hj
      rw [hother hki] at hk'
      exact hs.apart j k a hj hk'
  · intro a ha
    dsimp only at ha
    by_cases hd' : b'.data = some a
    · exact ⟨i, hself.trans hd'⟩
    · by_cases hd : b.data = some a
      · exact absurd (hk.gone a hd hd') ha
      · rw [hk.frame a hd hd'] at ha
        obtain ⟨j, hj⟩ := hs.owned a ha
        have hne : j ≠ i := by
          rintro rfl
          exact hd ((data_of hi).symm.trans hj)
        exact ⟨j, (hother hne).trans hj⟩
  · funext j
    by_cases hne : j = i
    · subst hne
      simp only [Sys.view, Function.update_self, Option.map_some]
    · rw [Function.update_of_ne hne]
      simp only [Sys.view, Function.update_of_ne hne]
      cases hj : s.bufs j with
      | none => rfl
      | some c => exact congrArg some (RawBuffer.view_congr (hs.storage_other hi hk hne hj))

/-- A buffer that comes or goes, without a block. -/
theorem exchange (o : Option RawBuffer) (hi : s.data i = none)
    (ho : ∀ b, o = some b → b.Ok s.heap ∧ b.data = none) :
    Sound ⟨s.heap, Function.update s.bufs i o⟩ ∧
      Sys.view ⟨s.heap, Function.update s.bufs i o⟩ =
        Function.update s.view i (o.map (·.view s.heap)) := by
  have hdata : Sys.data ⟨s.heap, Function.update s.bufs i o⟩ = s.data := by
    funext j
    by_cases hne : j = i
    · subst hne
      rw [hi]
      simp only [Sys.data, Function.update_self]
      cases o with
      | none => rfl
      | some b => exact (ho b rfl).2
    · simp only [Sys.data, Function.update_of_ne hne]
  refine ⟨⟨?_, hs.fresh, ?_, ?_⟩, ?_⟩
  · intro j c hj
    dsimp only at hj ⊢
    by_cases hne : j = i
    · subst hne
      rw [Function.update_self] at hj
      exact (ho c hj).1
    · rw [Function.update_of_ne hne] at hj
      exact hs.ok j c hj
  · rw [hdata]
    exact hs.apart
  · rw [hdata]
    exact hs.owned
  · funext j
    by_cases hne : j = i
    · subst hne
      simp only [Sys.view, Function.update_self]
    · simp only [Sys.view, Function.update_of_ne hne]

/-- A block that goes from one buffer to another. -/
theorem transfer (hne : i ≠ j) (hi : s.data i = none) (hj : s.bufs j = some c)
    (hb : b'.Ok s.heap) (hc : c'.Ok s.heap) (hbd : b'.data = c.data) (hcd : c'.data = none) :
    Sound ⟨s.heap, Function.update (Function.update s.bufs j (some c')) i (some b')⟩ ∧
      Sys.view ⟨s.heap, Function.update (Function.update s.bufs j (some c')) i (some b')⟩ =
        Function.update (Function.update s.view j (some (c'.view s.heap))) i
          (some (b'.view s.heap)) := by
  have hdata : ∀ k, Sys.data ⟨s.heap, Function.update (Function.update s.bufs j (some c')) i
      (some b')⟩ k = s.data (Equiv.swap i j k) := by
    intro k
    by_cases hki : k = i
    · subst hki
      rw [Equiv.swap_apply_left, data_of hj, ← hbd]
      exact data_of (Function.update_self ..)
    · by_cases hkj : k = j
      · subst hkj
        rw [Equiv.swap_apply_right, hi, ← hcd]
        refine data_of ?_
        dsimp only
        rw [Function.update_of_ne hki, Function.update_self]
      · rw [Equiv.swap_apply_of_ne_of_ne hki hkj]
        simp only [Sys.data, Function.update_of_ne hki, Function.update_of_ne hkj]
  refine ⟨⟨?_, hs.fresh, ?_, ?_⟩, ?_⟩
  · intro k d hk
    dsimp only at hk ⊢
    by_cases hki : k = i
    · subst hki
      rw [Function.update_self] at hk
      cases hk
      exact hb
    · rw [Function.update_of_ne hki] at hk
      by_cases hkj : k = j
      · subst hkj
        rw [Function.update_self] at hk
        cases hk
        exact hc
      · rw [Function.update_of_ne hkj] at hk
        exact hs.ok k d hk
  · intro k l a hk hl
    rw [hdata] at hk hl
    exact (Equiv.swap i j).injective (hs.apart _ _ a hk hl)
  · intro a ha
    obtain ⟨k, hk⟩ := hs.owned a ha
    exact ⟨Equiv.swap i j k, by rw [hdata, Equiv.swap_apply_self, hk]⟩
  · funext k
    by_cases hki : k = i
    · subst hki
      simp only [Sys.view, Function.update_self, Option.map_some]
    · by_cases hkj : k = j
      · subst hkj
        simp only [Sys.view, Function.update_of_ne hki, Function.update_self, Option.map_some]
      · simp only [Sys.view, Function.update_of_ne hki, Function.update_of_ne hkj]

/-- The block of a buffer is given back, and the buffer left without one. -/
theorem discard (hi : s.bufs i = some b) :
    ∃ h', s.heap.deleteData b.data = some h' ∧
      Sound ⟨h', Function.update s.bufs i (some b.discarded)⟩ ∧
      Sys.view ⟨h', Function.update s.bufs i (some b.discarded)⟩ =
        Function.update s.view i (some .empty) := by
  have hb := hs.ok i b hi
  obtain ⟨h', hdelete, hnext, hkeep, hgone⟩ := RawBuffer.deleteData_eq fun a ha =>
    hb.block_ne_none ha
  have hk : Keeps s.heap b h' b.discarded :=
    ⟨fun a ha _ => hkeep a ha, fun a ha _ => hgone a ha, fun _ ha => absurd ha (by nofun),
      Nat.le_of_eq hnext.symm⟩
  obtain ⟨hsound, hview⟩ := hs.update hi
    (RawBuffer.ok_inline hb.internal_length (Nat.zero_le _) (Nat.le_refl _)) hk
  exact ⟨h', hdelete, hsound, hview⟩

end Sound

end Sys

/-! ## Calls in any order -/

inductive Op where
  | construct (i : Nat)
  | write (i : Nat) (bytes : Bytes)
  | read (i len : Nat)
  | reset (i : Nat)
  | resetRead (i : Nat)
  /-- Buffer `i` from buffer `j`. -/
  | moveConstruct (i j : Nat)
  | moveAssign (i j : Nat)
  | destroy (i : Nat)

inductive Answer where
  | done
  | bytes (bs : Bytes)
  | thrown (e : Exn)
  | stuck

/-- Calls a program can make: on buffers that are there, with a length that fits in a `size_t`. -/
def Op.callable (alive : Nat → Bool) : Op → Bool
  | .construct i => !alive i
  | .write i bytes => alive i && decide (bytes.length < 2 ^ 64)
  | .read i len => alive i && decide (len < 2 ^ 64)
  | .reset i => alive i
  | .resetRead i => alive i
  | .moveConstruct i j => !alive i && alive j
  | .moveAssign i j => alive i && alive j
  | .destroy i => alive i

/-- What the calls do to the pairs. A write throws only where the bytes would be `2 ^ 63` and
more; a read takes the next bytes where there are so many; a move takes the pair along. -/
inductive Does (v : Nat → Option Buffer) : Op → Answer → (Nat → Option Buffer) → Prop
  | construct (i : Nat) :
    Does v (.construct i) .done (Function.update v i (some .empty))
  | write {i : Nat} {b : Buffer} (bytes : Bytes) (hi : v i = some b) :
    Does v (.write i bytes) .done (Function.update v i (some (b.write bytes)))
  | writeThrown {i : Nat} {b : Buffer} {bytes : Bytes} (e : Exn) (hi : v i = some b)
    (hbig : 2 ^ 63 ≤ b.size + bytes.length) :
    Does v (.write i bytes) (.thrown e) v
  | read {i len : Nat} {b b' : Buffer} (hi : v i = some b) (hlen : len ≤ b.remaining)
    (hdata : b'.data = b.data) (hpos : b'.readPos = b.readPos + len) :
    Does v (.read i len) (.bytes (b.unread.take len)) (Function.update v i (some b'))
  | readThrown {i len : Nat} {b : Buffer} (hi : v i = some b) (hlen : b.remaining < len) :
    Does v (.read i len) (.thrown underflow) v
  | reset {i : Nat} {b : Buffer} (hi : v i = some b) :
    Does v (.reset i) .done (Function.update v i (some .empty))
  | resetRead {i : Nat} {b : Buffer} (hi : v i = some b) :
    Does v (.resetRead i) .done (Function.update v i (some b.resetRead))
  | moveConstruct {i j : Nat} {b : Buffer} (hj : v j = some b) :
    Does v (.moveConstruct i j) .done
      (Function.update (Function.update v j (some .empty)) i (some b))
  | moveAssign {i j : Nat} {b : Buffer} (hne : i ≠ j) (hj : v j = some b) :
    Does v (.moveAssign i j) .done
      (Function.update (Function.update v j (some .empty)) i (some b))
  | moveAssignSelf (i : Nat) : Does v (.moveAssign i i) .done v
  | destroy (i : Nat) : Does v (.destroy i) .done (Function.update v i none)

/-- The decoders' `Buffer.read` is such a read. -/
theorem Does.of_read {v : Nat → Option Buffer} {i : Nat} {b : Buffer} (hi : v i = some b)
    (len : Nat) :
    match (Buffer.read len).run b with
    | .ok bytes b' => Does v (.read i len) (.bytes bytes) (Function.update v i (some b'))
    | .error e b' => Does v (.read i len) (.thrown e) v ∧ b' = b := by
  have hle := b.le
  simp only [EStateM.run, Buffer.read]
  split
  · next b' hread =>
    split at hread
    · next hlen =>
      cases hread
      refine .read hi ?_ rfl rfl
      rw [Buffer.remaining]
      omega
    · cases hread
  · next b' hread =>
    split at hread
    · cases hread
    · next hlen =>
      cases hread
      refine ⟨.readThrown hi ?_, rfl⟩
      rw [Buffer.remaining]
      omega

namespace Sys

def alive (s : Sys) (i : Nat) : Bool := (s.bufs i).isSome

/-- Store what a call on buffer `i` left. -/
def settle {α : Type} (s : Sys) (i : Nat) (answer : α → Answer) : Outcome α → Answer × Sys
  | .ok a h b => (answer a, ⟨h, Function.update s.bufs i (some b)⟩)
  | .thrown e h b => (.thrown e, ⟨h, Function.update s.bufs i (some b)⟩)
  | .stuck => (.stuck, s)

section
variable (junk : Nat → Nat → UInt8)

/-- A call; `stuck` also where the buffers it names are not as it needs them. -/
def call (s : Sys) : Op → Answer × Sys
  | .construct i => (.done, { s with bufs := Function.update s.bufs i (some (.create junk i)) })
  | .write i bytes =>
    match s.bufs i with
    | some b => s.settle i (fun _ => .done) (b.write junk s.heap bytes)
    | none => (.stuck, s)
  | .read i len =>
    match s.bufs i with
    | some b => s.settle i .bytes (b.read s.heap len)
    | none => (.stuck, s)
  | .reset i =>
    match s.bufs i with
    | some b => (.done, { s with bufs := Function.update s.bufs i (some b.reset) })
    | none => (.stuck, s)
  | .resetRead i =>
    match s.bufs i with
    | some b => (.done, { s with bufs := Function.update s.bufs i (some b.resetRead) })
    | none => (.stuck, s)
  | .moveConstruct i j =>
    match (s.bufs j).bind (RawBuffer.moveConstruct junk i) with
    | some (this, other) =>
      (.done, { s with bufs := Function.update (Function.update s.bufs j (some other)) i (some this) })
    | none => (.stuck, s)
  | .moveAssign i j =>
    match s.bufs i, s.bufs j with
    | some this, some other =>
      if i = j then (.done, s)
      else
        match this.moveAssign s.heap other with
        | some (h', this', other') =>
          (.done, ⟨h', Function.update (Function.update s.bufs j (some other')) i (some this')⟩)
        | none => (.stuck, s)
    | _, _ => (.stuck, s)
  | .destroy i =>
    match (s.bufs i).bind fun b => s.heap.deleteData b.data with
    | some h' => (.done, ⟨h', Function.update s.bufs i none⟩)
    | none => (.stuck, s)

/-- A step of a program: a call that it can make. -/
def step (s : Sys) (op : Op) : Option Sys :=
  if op.callable s.alive then some (s.call junk op).2 else none

end

/-- What `call` has to do. -/
def Refines (s : Sys) (op : Op) (r : Answer × Sys) : Prop :=
  r.2.Sound ∧ Does s.view op r.1 r.2.view

theorem alive_iff {s : Sys} {i : Nat} : s.alive i = true ↔ ∃ b, s.bufs i = some b :=
  Option.isSome_iff_exists

theorem alive_eq_false {s : Sys} {i : Nat} : s.alive i = false ↔ s.bufs i = none :=
  Option.isSome_eq_false_iff.trans Option.isNone_iff_eq_none

theorem view_of {s : Sys} {i : Nat} {b : RawBuffer} (hi : s.bufs i = some b) :
    s.view i = some (b.view s.heap) := by
  rw [view, hi, Option.map_some]

/-- Buffer `i` is exchanged last; what it was in between does not matter. -/
theorem update_between {α : Type} {i j : Nat} (hne : i ≠ j) (f : Nat → α) (a b c : α) :
    Function.update (Function.update (Function.update f i a) j c) i b =
      Function.update (Function.update f j c) i b := by
  rw [Function.update_comm hne, Function.update_idem]

namespace Sound

variable (junk : Nat → Nat → UInt8) {s : Sys} {i j : Nat} {b c : RawBuffer} (hs : s.Sound)
include hs

/-- A new buffer. -/
theorem create (hi : s.bufs i = none) :
    Sound ⟨s.heap, Function.update s.bufs i (some (.create junk i))⟩ ∧
      Sys.view ⟨s.heap, Function.update s.bufs i (some (.create junk i))⟩ =
        Function.update s.view i (some .empty) := by
  have hdata : s.data i = none := by
    rw [data, hi, Option.bind_none]
  have hcreate := hs.exchange (some (.create junk i)) hdata fun b hb => by
    rw [← Option.some.inj hb]
    exact ⟨RawBuffer.ok_create junk i, rfl⟩
  rw [Option.map_some, RawBuffer.view_create] at hcreate
  exact hcreate

theorem construct (hi : s.bufs i = none) : s.Refines (.construct i) (s.call junk (.construct i)) := by
  obtain ⟨hsound, hview⟩ := hs.create junk hi
  refine ⟨hsound, ?_⟩
  dsimp only [call]
  rw [hview]
  exact .construct i

theorem write (hi : s.bufs i = some b) {bytes : Bytes} (hlen : bytes.length < 2 ^ 64) :
    s.Refines (.write i bytes) (s.call junk (.write i bytes)) := by
  have hb := hs.ok i b hi
  dsimp only [call]
  rw [hi]
  dsimp only
  rcases hb.write junk hs.fresh hlen with ⟨e, he, hbig⟩ | ⟨h', b', he, hb', hk, hview⟩
  · rw [he, settle, ← hi, Function.update_eq_self]
    refine ⟨hs, .writeThrown e (view_of hi) ?_⟩
    rw [Buffer.size]
    show 2 ^ 63 ≤ (b.contents s.heap).length + bytes.length
    rw [hb.length_contents]
    exact hbig
  · rw [he, settle]
    obtain ⟨hsound, hv⟩ := hs.update hi hb' hk
    refine ⟨hsound, ?_⟩
    dsimp only
    rw [hv, hview]
    exact .write bytes (view_of hi)

theorem read (hi : s.bufs i = some b) (len : Nat) :
    s.Refines (.read i len) (s.call junk (.read i len)) := by
  have hb := hs.ok i b hi
  have hread := hb.read len
  dsimp only [call]
  rw [hi]
  dsimp only
  split at hread
  · next hle =>
    obtain ⟨b', he, hb', hd, hdata, hpos⟩ := hread
    obtain ⟨hsound, hv⟩ := hs.update hi hb' (.refl_data hd)
    rw [he, settle]
    refine ⟨hsound, ?_⟩
    dsimp only
    rw [hv]
    exact .read (view_of hi) hle hdata hpos
  · next hlt =>
    rw [hread, settle, ← hi, Function.update_eq_self]
    exact ⟨hs, .readThrown (view_of hi) (by omega)⟩

theorem reset (hi : s.bufs i = some b) : s.Refines (.reset i) (s.call junk (.reset i)) := by
  have hb : b.reset.Ok s.heap :=
    { hs.ok i b hi with size_le := Nat.zero_le _, readPos_le := Nat.le_refl _ }
  obtain ⟨hsound, hv⟩ := hs.update hi hb (.refl_data rfl)
  dsimp only [call]
  rw [hi]
  refine ⟨hsound, ?_⟩
  dsimp only
  rw [hv]
  exact .reset (view_of hi)

theorem resetRead (hi : s.bufs i = some b) :
    s.Refines (.resetRead i) (s.call junk (.resetRead i)) := by
  have hb : b.resetRead.Ok s.heap := { hs.ok i b hi with readPos_le := Nat.zero_le _ }
  obtain ⟨hsound, hv⟩ := hs.update hi hb (.refl_data rfl)
  have hview : b.resetRead.view s.heap = (b.view s.heap).resetRead := by
    have hcontents : b.resetRead.contents s.heap = b.contents s.heap := rfl
    have hcursor : b.resetRead.readPos = 0 := rfl
    unfold RawBuffer.view Buffer.resetRead Buffer.ofBytes
    simp only [hcontents, hcursor, Nat.zero_min]
  dsimp only [call]
  rw [hi]
  refine ⟨hsound, ?_⟩
  dsimp only
  rw [hv, hview]
  exact .resetRead (view_of hi)

/-- Both moves, once buffer `i` has no block. -/
theorem move (hne : i ≠ j) (hi : s.data i = none) (hj : s.bufs j = some c) {internal : Bytes}
    (hl : internal.length = kInlineSize) :
    ∃ b', RawBuffer.moveInto internal c = some b' ∧
      Sound ⟨s.heap, Function.update (Function.update s.bufs j (some c.movedFrom)) i (some b')⟩ ∧
      Sys.view ⟨s.heap, Function.update (Function.update s.bufs j (some c.movedFrom)) i (some b')⟩ =
        Function.update (Function.update s.view j (some .empty)) i (some (c.view s.heap)) := by
  have hc := hs.ok j c hj
  obtain ⟨b', hmove, hb', hd, hview⟩ := hc.moveInto hl
  obtain ⟨hc', hcd, hempty⟩ := hc.movedFrom
  obtain ⟨hsound, hv⟩ := hs.transfer hne hi hj hb' hc' hd hcd
  rw [hview, hempty] at hv
  exact ⟨b', hmove, hsound, hv⟩

theorem moveConstruct (hi : s.bufs i = none) (hj : s.bufs j = some c) :
    s.Refines (.moveConstruct i j) (s.call junk (.moveConstruct i j)) := by
  have hne : i ≠ j := by
    rintro rfl
    rw [hi] at hj
    cases hj
  -- buffer `i` could as well be there before the move
  obtain ⟨hs', hview'⟩ := hs.create junk hi
  have hj' : Function.update s.bufs i (some (.create junk i)) j = some c := by
    rw [Function.update_of_ne hne.symm, hj]
  obtain ⟨b', hmove, hsound, hv⟩ := hs'.move hne (data_self ..) hj'
    (length_indeterminate junk i _)
  dsimp only at hmove hsound hv
  rw [update_between hne] at hsound hv
  rw [hview', update_between hne] at hv
  dsimp only [call]
  rw [hj, Option.bind_some, RawBuffer.moveConstruct, hmove, Option.map_some]
  refine ⟨hsound, ?_⟩
  dsimp only
  rw [hv]
  exact .moveConstruct (view_of hj)

theorem moveAssign (hi : s.bufs i = some b) (hj : s.bufs j = some c) :
    s.Refines (.moveAssign i j) (s.call junk (.moveAssign i j)) := by
  dsimp only [call]
  rw [hi, hj]
  dsimp only
  split
  · next he =>
    subst he
    exact ⟨hs, .moveAssignSelf i⟩
  next hne =>
  obtain ⟨h', hdelete, hs', hview'⟩ := hs.discard hi
  have hj' : Function.update s.bufs i (some b.discarded) j = some c := by
    rw [Function.update_of_ne (Ne.symm hne), hj]
  obtain ⟨b', hmove, hsound, hv⟩ := hs'.move hne (data_self ..) hj'
    (hs.ok i b hi).internal_length
  -- the deletion did not touch buffer `j`
  have hsame : c.view h' = c.view s.heap := by
    have := congrFun hview' j
    rw [view_of hj', Function.update_of_ne (Ne.symm hne), view_of hj] at this
    exact Option.some.inj this
  dsimp only at hmove hsound hv
  rw [update_between hne] at hsound hv
  rw [hview', update_between hne, hsame] at hv
  rw [RawBuffer.moveAssign, hdelete, hmove]
  refine ⟨hsound, ?_⟩
  dsimp only
  rw [hv]
  exact .moveAssign hne (view_of hj)

theorem destroy (hi : s.bufs i = some b) :
    s.Refines (.destroy i) (s.call junk (.destroy i)) := by
  obtain ⟨h', hdelete, hs', hview'⟩ := hs.discard hi
  obtain ⟨hsound, hv⟩ := hs'.exchange none (data_self ..)
    fun _ hb => absurd hb (by nofun)
  dsimp only at hsound hv
  rw [Function.update_idem] at hsound hv
  rw [hview', Function.update_idem, Option.map_none] at hv
  dsimp only [call]
  rw [hi, Option.bind_some, hdelete]
  refine ⟨hsound, ?_⟩
  dsimp only
  rw [hv]
  exact .destroy i

/-- What a program can call does what it should. -/
theorem call {op : Op} (hop : op.callable s.alive = true) : s.Refines op (s.call junk op) := by
  cases op with
  | construct i =>
    rw [Op.callable, Bool.not_eq_true'] at hop
    exact hs.construct junk (alive_eq_false.mp hop)
  | write i bytes =>
    rw [Op.callable, Bool.and_eq_true, alive_iff, decide_eq_true_eq] at hop
    obtain ⟨⟨b, hi⟩, hlen⟩ := hop
    exact hs.write junk hi hlen
  | read i len =>
    rw [Op.callable, Bool.and_eq_true, alive_iff] at hop
    obtain ⟨⟨b, hi⟩, -⟩ := hop
    exact hs.read junk hi len
  | reset i =>
    obtain ⟨b, hi⟩ := alive_iff.mp hop
    exact hs.reset junk hi
  | resetRead i =>
    obtain ⟨b, hi⟩ := alive_iff.mp hop
    exact hs.resetRead junk hi
  | moveConstruct i j =>
    rw [Op.callable, Bool.and_eq_true, Bool.not_eq_true', alive_eq_false, alive_iff] at hop
    obtain ⟨hi, c, hj⟩ := hop
    exact hs.moveConstruct junk hi hj
  | moveAssign i j =>
    rw [Op.callable, Bool.and_eq_true, alive_iff, alive_iff] at hop
    obtain ⟨⟨b, hi⟩, c, hj⟩ := hop
    exact hs.moveAssign junk hi hj
  | destroy i =>
    obtain ⟨b, hi⟩ := alive_iff.mp hop
    exact hs.destroy junk hi

end Sound

theorem step_of {junk : Nat → Nat → UInt8} {s : Sys} {op : Op}
    (hop : op.callable s.alive = true) : step junk s op = some (s.call junk op).2 :=
  if_pos hop

/-- Every state that a program reaches is in order. -/
theorem sound_of_run {junk : Nat → Nat → UInt8} {ops : List Op} {s : Sys}
    (hrun : Lts.Run (step junk) (fun _ _ => True) empty ops s) : s.Sound := by
  refine hrun.invariant Sound sound_empty fun s op s' hs _ hstep => ?_
  rw [step] at hstep
  split at hstep
  · next hop =>
    cases hstep
    exact (hs.call junk hop).1
  · cases hstep

/-- Whatever a program has called, its buffers are in order, growing one ends without a wrap for
every size that the guard admits, and whatever it can call next does what it should to the pairs. -/
theorem run_refines {junk : Nat → Nat → UInt8} {ops : List Op} {s : Sys}
    (hrun : Lts.Run (step junk) (fun _ _ => True) empty ops s) :
    (∀ i b, s.bufs i = some b →
      b.readPos ≤ b.size ∧ b.size ≤ b.capacity ∧ (∃ k, b.capacity = kInlineSize * 2 ^ k) ∧
        (b.capacity = kInlineSize ↔ b.data = none) ∧
        ∀ required ≤ sizeMax / 2, ∃ m, RawBuffer.grow 64 required b.capacity =
          some (b.capacity * 2 ^ m) ∧ b.capacity * 2 ^ m ≤ sizeMax ∧
            required ≤ b.capacity * 2 ^ m) ∧
    ∀ op, op.callable s.alive = true →
      Does s.view op (s.call junk op).1 (s.call junk op).2.view := by
  have hs := sound_of_run hrun
  refine ⟨fun i b hi => ?_, fun op hop => (hs.call junk hop).2⟩
  have hb := hs.ok i b hi
  obtain ⟨k, -, hk⟩ := hb.capacity_pow
  exact ⟨hb.readPos_le, hb.size_le, ⟨k, hk⟩, hb.inline_iff.symm, fun _ => hb.grow⟩

/-- A program that writes a byte to a new buffer, and whatever it calls then. -/
theorem run_refines_write : ∃ s,
    Lts.Run (step fun _ _ => 0) (fun _ _ => True) empty [.construct 0, .write 0 [7]] s ∧
      ∀ op, op.callable s.alive = true →
        Does s.view op (s.call (fun _ _ => 0) op).1 (s.call (fun _ _ => 0) op).2.view := by
  have hrun : Lts.Run (step fun _ _ => 0) (fun _ _ => True) empty [.construct 0, .write 0 [7]]
      ((empty.call (fun _ _ => 0) (.construct 0)).2.call (fun _ _ => 0) (.write 0 [7])).2 :=
    .snoc (.snoc .nil trivial (step_of rfl)) trivial (step_of rfl)
  exact ⟨_, hrun, (run_refines hrun).2⟩

end Sys

end Song.Storage
