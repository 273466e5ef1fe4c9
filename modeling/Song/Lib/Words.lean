import Mathlib.Data.List.Basic
import Mathlib.Tactic.Ring

/-!
# Little-endian words

`leBytes n x` is the `n`-byte little-endian encoding of `x` (the low `n` bytes)
and `leNat` reads a byte string back. The two are inverse on `n`-byte strings
and on numbers below `256 ^ n`. `overwrite` stores bytes at an offset of a byte
string, as a `memcpy` into a buffer does.
-/

namespace Words

/-- A byte string. -/
abbrev Bytes := List UInt8

def leBytes : Nat → Nat → Bytes
  | 0, _ => []
  | n + 1, x => UInt8.ofNat x :: leBytes n (x / 256)

def leNat : Bytes → Nat
  | [] => 0
  | b :: bs => b.toNat + 256 * leNat bs

@[simp] theorem length_leBytes (n x : Nat) : (leBytes n x).length = n := by
  induction n generalizing x with
  | zero => rfl
  | succ n ih => simp [leBytes, ih]

theorem leNat_lt (bs : Bytes) : leNat bs < 256 ^ bs.length := by
  induction bs with
  | nil => simp [leNat]
  | cons b bs ih =>
    have hb : b.toNat < 256 := b.toNat_lt
    simp only [leNat, List.length_cons, Nat.pow_succ]
    omega

theorem leNat_leBytes {n x : Nat} (h : x < 256 ^ n) : leNat (leBytes n x) = x := by
  induction n generalizing x with
  | zero =>
    simp only [Nat.pow_zero] at h
    simp only [leBytes, leNat]; omega
  | succ n ih =>
    have hq : x / 256 < 256 ^ n := by
      rw [Nat.pow_succ] at h
      exact Nat.div_lt_of_lt_mul (by omega)
    simp only [leBytes, leNat, ih hq, UInt8.toNat_ofNat']
    omega

theorem leBytes_leNat (bs : Bytes) : leBytes bs.length (leNat bs) = bs := by
  induction bs with
  | nil => rfl
  | cons b bs ih =>
    have hb : b.toNat < 256 := b.toNat_lt
    have hlow : UInt8.ofNat (b.toNat + 256 * leNat bs) = b := by
      apply UInt8.toNat_inj.mp
      rw [UInt8.toNat_ofNat']; omega
    have hhigh : (b.toNat + 256 * leNat bs) / 256 = leNat bs := by omega
    simp only [List.length_cons, leBytes, leNat, hlow, hhigh, ih]

/-- Store `new` at offset `off` of `bs`. -/
def overwrite (off : Nat) (new bs : Bytes) : Bytes :=
  bs.take off ++ new ++ bs.drop (off + new.length)

theorem overwrite_append (pre old new post : Bytes) (h : old.length = new.length) :
    overwrite pre.length new (pre ++ old ++ post) = pre ++ new ++ post := by
  have hd : (pre ++ old ++ post).drop (pre.length + new.length) = post := by
    rw [← h, ← List.length_append, List.drop_left]
  rw [overwrite, hd, List.append_assoc pre old post, List.take_left]

theorem length_overwrite {off : Nat} {new bs : Bytes} (h : off + new.length ≤ bs.length) :
    (overwrite off new bs).length = bs.length := by
  simp only [overwrite, List.length_append, List.length_take, List.length_drop]
  omega

/-- What was in front, and what was written. -/
theorem take_overwrite {off : Nat} {new bs : Bytes} (h : off ≤ bs.length) :
    (overwrite off new bs).take (off + new.length) = bs.take off ++ new := by
  have hl : (bs.take off ++ new).length = off + new.length := by
    rw [List.length_append, List.length_take_of_le h]
  rw [overwrite, List.take_left' hl]

end Words
