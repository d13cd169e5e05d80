import Mathlib.Data.List.Infix
import Mathlib.Data.Nat.Bitwise

/-! The bit-level view deku reads packets from: a `BitSlice<u8, Msb0>` over the trace bytes, kept
as the bytes and the offset of the view's first bit, with bits numbered from the most significant
bit of each byte, and the primitive readers its derived `DekuRead` impls are built from. A
`#[deku(magic = ...)]` is read byte by byte and compared; a `Vec<u8>` read with `until` takes the
bytes up to and including the first one its predicate accepts, with the length of the slice as
fuel. `leValue` and `stopLength` are what those readers compute on whole bytes. -/

namespace YkptParser

structure BitSlice where
  raw : List UInt8
  head : Nat
  deriving DecidableEq, Repr

namespace BitSlice

def fromSlice (bytes : List UInt8) : BitSlice := ⟨bytes, 0⟩

def asRawSlice (s : BitSlice) : List UInt8 := s.raw.drop (s.head / 8)

def readBit (s : BitSlice) : Option (BitSlice × Bool) :=
  s.raw[s.head / 8]?.map fun b => (⟨s.raw, s.head + 1⟩, b.toNat.testBit (7 - s.head % 8))

end BitSlice

def readBits : Nat → BitSlice → Option (BitSlice × Nat)
  | 0, s => some (s, 0)
  | n + 1, s => do
    let (s, b) ← s.readBit
    let (s, v) ← readBits n s
    pure (s, b.toNat * 2 ^ n + v)

def readU8 (s : BitSlice) : Option (BitSlice × UInt8) := do
  let (s, v) ← readBits 8 s
  pure (s, UInt8.ofNat v)

def readBool (s : BitSlice) : Option (BitSlice × Bool) := do
  let (s, v) ← readBits 1 s
  match v with
  | 0 => pure (s, false)
  | 1 => pure (s, true)
  | _ => none

def readLE : Nat → BitSlice → Option (BitSlice × Nat)
  | 0, s => some (s, 0)
  | k + 1, s => do
    let (s, b) ← readU8 s
    let (s, v) ← readLE k s
    pure (s, b.toNat + 256 * v)

def readMagic : List UInt8 → BitSlice → Option BitSlice
  | [], s => some s
  | m :: ms, s => do
    let (s, b) ← readU8 s
    if m = b then readMagic ms s else none

def readUntil (stop : UInt8 → Bool) : Nat → BitSlice → Option (BitSlice × List UInt8)
  | 0, _ => none
  | fuel + 1, s => do
    let (s, e) ← readU8 s
    if stop e then pure (s, [e]) else do
      let (s, es) ← readUntil stop fuel s
      pure (s, e :: es)

def leValue : List UInt8 → Nat
  | [] => 0
  | b :: bs => b.toNat + 256 * leValue bs

def stopLength (stop : UInt8 → Bool) : List UInt8 → Option Nat
  | [] => none
  | e :: es => if stop e then some 1 else (stopLength stop es).map (· + 1)

/-! ## Reads at known positions

Each lemma takes the bit position `j` of the view with its byte index `i`, so that it applies at
any concrete offset. -/

section Aligned

variable {raw : List UInt8} {i j : Nat} {b : UInt8}

theorem byte_ofNat_toNat (b : UInt8) : UInt8.ofNat b.toNat = b :=
  UInt8.toNat.inj (UInt8.toNat_ofNat_of_lt b.toNat_lt_size)

theorem drop_cons_of_getElem (hb : raw[i]? = some b) : raw.drop i = b :: raw.drop (i + 1) := by
  obtain ⟨within, rfl⟩ := List.getElem?_eq_some_iff.mp hb
  exact List.drop_eq_getElem_cons within

theorem drop_nil_of_getElem (hb : raw[i]? = none) : raw.drop i = [] :=
  List.drop_eq_nil_of_le (List.getElem?_eq_none_iff.mp hb)

theorem readBit_at {o : Nat} (aligned : j = 8 * i + o) (within : o < 8) :
    BitSlice.readBit ⟨raw, j⟩ =
      raw[i]?.map fun b => (⟨raw, j + 1⟩, b.toNat.testBit (7 - o)) := by
  have index : j / 8 = i := by omega
  have offset : j % 8 = o := by omega
  simp [BitSlice.readBit, index, offset]

theorem readBits_within (hb : raw[i]? = some b) {o n : Nat} (aligned : j = 8 * i + o)
    (fits : o + n ≤ 8) :
    readBits n ⟨raw, j⟩ = some (⟨raw, j + n⟩, b.toNat / 2 ^ (8 - o - n) % 2 ^ n) := by
  induction n generalizing o j with
  | zero => simp [readBits, Nat.mod_one]
  | succ n ih =>
    have rest := ih (o := o + 1) (j := j + 1) (by omega) (by omega)
    have shift : 8 - o - (n + 1) = 8 - (o + 1) - n := by omega
    have top : b.toNat / 2 ^ (7 - o) = b.toNat / 2 ^ (8 - (o + 1) - n) / 2 ^ n := by
      rw [Nat.div_div_eq_div_mul, ← Nat.pow_add]
      congr 2
      omega
    simp only [readBits, readBit_at aligned (show o < 8 by omega), hb, Option.map_some']
    simp only [bind, Option.some_bind, rest, Nat.toNat_testBit, top, shift, Nat.mod_pow_succ, pure]
    congr 2 <;> ac_rfl

theorem readBits_past (hb : raw[i]? = none) {o n : Nat} (aligned : j = 8 * i + o)
    (within : o < 8) (nonempty : 0 < n) : readBits n ⟨raw, j⟩ = none := by
  obtain ⟨n, rfl⟩ : ∃ m, n = m + 1 := ⟨n - 1, by omega⟩
  simp [readBits, readBit_at aligned within, hb]

theorem readBool_within (hb : raw[i]? = some b) {o : Nat} (aligned : j = 8 * i + o)
    (within : o < 8) :
    readBool ⟨raw, j⟩ = some (⟨raw, j + 1⟩, decide (b.toNat / 2 ^ (7 - o) % 2 = 1)) := by
  have bit := readBits_within (n := 1) hb aligned (by omega)
  rw [show 8 - o - 1 = 7 - o by omega] at bit
  rcases Nat.mod_two_eq_zero_or_one (b.toNat / 2 ^ (7 - o)) with parity | parity <;>
    simp [readBool, bit, parity]

theorem readU8_at (aligned : j = 8 * i) :
    readU8 ⟨raw, j⟩ = raw[i]?.map (⟨raw, j + 8⟩, ·) := by
  cases hb : raw[i]? with
  | none => simp [readU8, readBits_past (j := j) (o := 0) (n := 8) hb aligned (by omega) (by omega)]
  | some b =>
    have small : b.toNat % 256 = b.toNat := Nat.mod_eq_of_lt b.toNat_lt_size
    simp [readU8, readBits_within (j := j) (o := 0) (n := 8) hb aligned (by omega), small,
      byte_ofNat_toNat]

theorem readLE_at (k : Nat) (aligned : j = 8 * i) :
    readLE k ⟨raw, j⟩ = if k ≤ (raw.drop i).length
      then some (⟨raw, j + 8 * k⟩, leValue ((raw.drop i).take k)) else none := by
  induction k generalizing i j with
  | zero => simp [readLE, leValue]
  | succ k ih =>
    cases hb : raw[i]? with
    | none => simp [readLE, readU8_at aligned, hb, drop_nil_of_getElem hb]
    | some b =>
      have position : j + 8 + 8 * k = j + 8 * (k + 1) := by omega
      simp only [readLE, readU8_at aligned, hb, ih (i := i + 1) (j := j + 8) (by omega),
        drop_cons_of_getElem hb, position, Option.map_some', bind, Option.some_bind,
        List.length_cons, Nat.add_le_add_iff_right, List.take_succ_cons]
      split <;> rfl

theorem readMagic_at (magic : List UInt8) (aligned : j = 8 * i) :
    readMagic magic ⟨raw, j⟩ =
      if magic <+: raw.drop i then some ⟨raw, j + 8 * magic.length⟩ else none := by
  induction magic generalizing i j with
  | nil => simp [readMagic]
  | cons m ms ih =>
    cases hb : raw[i]? with
    | none => simp [readMagic, readU8_at aligned, hb, drop_nil_of_getElem hb]
    | some b =>
      have position : j + 8 + 8 * ms.length = j + 8 * (ms.length + 1) := by omega
      by_cases same : m = b <;>
        simp [readMagic, readU8_at aligned, hb, ih (i := i + 1) (j := j + 8) (by omega),
          drop_cons_of_getElem hb, same, position]

theorem readUntil_at (stop : UInt8 → Bool) (fuel : Nat) (aligned : j = 8 * i)
    (enough : (raw.drop i).length ≤ fuel) :
    readUntil stop fuel ⟨raw, j⟩ = (stopLength stop (raw.drop i)).map
      fun n => (⟨raw, j + 8 * n⟩, (raw.drop i).take n) := by
  induction fuel generalizing i j with
  | zero =>
    have empty : raw.drop i = [] := List.eq_nil_of_length_eq_zero (by omega)
    simp [readUntil, empty, stopLength]
  | succ fuel ih =>
    cases hb : raw[i]? with
    | none => simp [readUntil, readU8_at aligned, hb, drop_nil_of_getElem hb, stopLength]
    | some b =>
      rw [drop_cons_of_getElem hb] at enough ⊢
      have rest := ih (i := i + 1) (j := j + 8) (by omega)
        (by simp only [List.length_cons] at enough; omega)
      by_cases stops : stop b
      · simp [readUntil, readU8_at aligned, hb, stopLength, stops]
      · cases tail : stopLength stop (raw.drop (i + 1)) with
        | none => simp [readUntil, readU8_at aligned, hb, stopLength, stops, rest, tail]
        | some n =>
          simp [readUntil, readU8_at aligned, hb, stopLength, stops, rest, tail]
          omega

end Aligned

end YkptParser
