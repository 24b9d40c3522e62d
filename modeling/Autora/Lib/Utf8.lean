import Autora.Lib.Untyped

/-! UTF-8, with the places where bytes are no text: strict reading stops at the first, and
lenient reading puts a replacement character there. -/

namespace Utf8

open Untyped

abbrev Bytes := List UInt8

def byte (n : Nat) : UInt8 := UInt8.ofNat n

@[simp] theorem toNat_byte {n : Nat} (h : n < 256) : (byte n).toNat = n := by
  have hm : (byte n).toNat = n % 256 := UInt8.toNat_ofNat
  rw [hm, Nat.mod_eq_of_lt h]

@[simp] theorem byte_toNat (b : UInt8) : byte b.toNat = b := UInt8.ofNat_toNat

theorem toNat_lt (b : UInt8) : b.toNat < 256 := b.toNat_lt

/-- A code point that has an encoding. -/
def scalar (c : Nat) : Bool := c < 0xD800 || (0xE000 ≤ c && c < 0x110000)

def encodePoint (c : Nat) : Bytes :=
  if c < 0x80 then [byte c]
  else if c < 0x800 then [byte (0xC0 + c / 64), byte (0x80 + c % 64)]
  else if c < 0x10000 then
    [byte (0xE0 + c / 4096), byte (0x80 + c / 64 % 64), byte (0x80 + c % 64)]
  else
    [byte (0xF0 + c / 262144), byte (0x80 + c / 4096 % 64), byte (0x80 + c / 64 % 64),
      byte (0x80 + c % 64)]

/-- `text.encode()`; none where it raises. -/
def encode (s : Str) : Option Bytes :=
  if s.all scalar then some (s.flatMap encodePoint) else none

/-- A sequence that has begun: how many bytes it needs, the range the next one is in, and the
bits so far. -/
structure Pending where
  left : Nat
  low : Nat
  high : Nat
  bits : Nat

/-- What a byte does: the code points it ends, none for an error, and what is begun. -/
abbrev Step := List (Option Nat) × Option Pending

def first (b : Nat) : Step :=
  if b < 0x80 then ([some b], none)
  else if b < 0xC2 then ([none], none)
  else if b < 0xE0 then ([], some ⟨1, 0x80, 0xBF, b - 0xC0⟩)
  else if b < 0xF0 then
    ([], some ⟨2, if b = 0xE0 then 0xA0 else 0x80, if b = 0xED then 0x9F else 0xBF, b - 0xE0⟩)
  else if b < 0xF5 then
    ([], some ⟨3, if b = 0xF0 then 0x90 else 0x80, if b = 0xF4 then 0x8F else 0xBF, b - 0xF0⟩)
  else ([none], none)

/-- A byte outside the range ends the sequence as one error and begins anew. -/
def next (p : Pending) (b : Nat) : Step :=
  if p.low ≤ b ∧ b ≤ p.high then
    if p.left = 1 then ([some (p.bits * 64 + b % 64)], none)
    else ([], some ⟨p.left - 1, 0x80, 0xBF, p.bits * 64 + b % 64⟩)
  else (none :: (first b).1, (first b).2)

def step : Option Pending → Nat → Step
  | none, b => first b
  | some p, b => next p b

def scan : Option Pending → Bytes → List (Option Nat)
  | none, [] => []
  | some _, [] => [none]
  | p, b :: bs => (step p b.toNat).1 ++ scan (step p b.toNat).2 bs

/-- `data.decode()`; none where it raises. -/
def decode (bs : Bytes) : Option Str := (scan none bs).mapM id

/-- `data.decode(errors="replace")`. -/
def decodeReplace (bs : Bytes) : Str := (scan none bs).map fun c => c.getD 0xFFFD

theorem scan_none_cons {b : UInt8} {bs : Bytes} :
    scan none (b :: bs) = (first b.toNat).1 ++ scan (first b.toNat).2 bs := rfl

theorem scan_some_cons {p : Pending} {b : UInt8} {bs : Bytes} :
    scan (some p) (b :: bs) = (next p b.toNat).1 ++ scan (next p b.toNat).2 bs := rfl

/-- The last byte of a sequence. -/
theorem scan_last {p : Pending} {n : Nat} {bs : Bytes} (hp : p.left = 1) (hl : p.low ≤ n)
    (hh : n ≤ p.high) (hn : n < 256) :
    scan (some p) (byte n :: bs) = some (p.bits * 64 + n % 64) :: scan none bs := by
  rw [scan_some_cons, toNat_byte hn, next, if_pos ⟨hl, hh⟩, if_pos hp]
  rfl

/-- A byte of a sequence with more to come. -/
theorem scan_more {p : Pending} {n : Nat} {bs : Bytes} (hp : p.left ≠ 1) (hl : p.low ≤ n)
    (hh : n ≤ p.high) (hn : n < 256) :
    scan (some p) (byte n :: bs) =
      scan (some ⟨p.left - 1, 0x80, 0xBF, p.bits * 64 + n % 64⟩) bs := by
  rw [scan_some_cons, toNat_byte hn, next, if_pos ⟨hl, hh⟩, if_neg hp]
  rfl

theorem scan_two {c : Nat} {bs : Bytes} (hl : 0x80 ≤ c) (hh : c < 0x800) :
    scan none (byte (0xC0 + c / 64) :: byte (0x80 + c % 64) :: bs) = some c :: scan none bs := by
  have hf : first (0xC0 + c / 64) = ([], some ⟨1, 0x80, 0xBF, c / 64⟩) := by
    unfold first
    rw [if_neg (by omega), if_neg (by omega), if_pos (by omega), Nat.add_sub_cancel_left]
  have hv : c / 64 * 64 + (0x80 + c % 64) % 64 = c := by omega
  rw [scan_none_cons, toNat_byte (by omega), hf, List.nil_append,
    scan_last rfl (by dsimp only; omega) (by dsimp only; omega) (by omega), hv]

theorem scan_three {c : Nat} {bs : Bytes} (hl : 0x800 ≤ c) (hh : c < 0x10000)
    (hs : scalar c = true) :
    scan none (byte (0xE0 + c / 4096) :: byte (0x80 + c / 64 % 64) :: byte (0x80 + c % 64) :: bs)
      = some c :: scan none bs := by
  have hf : first (0xE0 + c / 4096) = ([], some ⟨2, if 0xE0 + c / 4096 = 0xE0 then 0xA0 else 0x80,
      if 0xE0 + c / 4096 = 0xED then 0x9F else 0xBF, c / 4096⟩) := by
    unfold first
    rw [if_neg (by omega), if_neg (by omega), if_neg (by omega), if_pos (by omega),
      Nat.add_sub_cancel_left]
  have hv : (c / 4096 * 64 + (0x80 + c / 64 % 64) % 64) * 64 + (0x80 + c % 64) % 64 = c := by
    omega
  simp only [scalar, Bool.or_eq_true, Bool.and_eq_true, decide_eq_true_eq] at hs
  have hlow : (if 0xE0 + c / 4096 = 0xE0 then 0xA0 else 0x80) ≤ 0x80 + c / 64 % 64 := by
    split <;> omega
  have hhigh : 0x80 + c / 64 % 64 ≤ if 0xE0 + c / 4096 = 0xED then 0x9F else 0xBF := by
    split <;> omega
  rw [scan_none_cons, toNat_byte (by omega), hf, List.nil_append,
    scan_more (by dsimp only; omega) hlow hhigh (by omega),
    scan_last rfl (by dsimp only; omega) (by dsimp only; omega) (by omega), hv]

theorem scan_four {c : Nat} {bs : Bytes} (hl : 0x10000 ≤ c) (hh : c < 0x110000) :
    scan none (byte (0xF0 + c / 262144) :: byte (0x80 + c / 4096 % 64) ::
      byte (0x80 + c / 64 % 64) :: byte (0x80 + c % 64) :: bs) = some c :: scan none bs := by
  have hf : first (0xF0 + c / 262144) =
      ([], some ⟨3, if 0xF0 + c / 262144 = 0xF0 then 0x90 else 0x80,
        if 0xF0 + c / 262144 = 0xF4 then 0x8F else 0xBF, c / 262144⟩) := by
    unfold first
    rw [if_neg (by omega), if_neg (by omega), if_neg (by omega), if_neg (by omega),
      if_pos (by omega), Nat.add_sub_cancel_left]
  have hv : ((c / 262144 * 64 + (0x80 + c / 4096 % 64) % 64) * 64 + (0x80 + c / 64 % 64) % 64) * 64
      + (0x80 + c % 64) % 64 = c := by
    omega
  have hlow : (if 0xF0 + c / 262144 = 0xF0 then 0x90 else 0x80) ≤ 0x80 + c / 4096 % 64 := by
    split <;> omega
  have hhigh : 0x80 + c / 4096 % 64 ≤ if 0xF0 + c / 262144 = 0xF4 then 0x8F else 0xBF := by
    split <;> omega
  rw [scan_none_cons, toNat_byte (by omega), hf, List.nil_append,
    scan_more (by dsimp only; omega) hlow hhigh (by omega),
    scan_more (by dsimp only; omega) (by dsimp only; omega) (by dsimp only; omega) (by omega),
    scan_last rfl (by dsimp only; omega) (by dsimp only; omega) (by omega), hv]

theorem scan_encodePoint {c : Nat} {bs : Bytes} (hs : scalar c = true) :
    scan none (encodePoint c ++ bs) = some c :: scan none bs := by
  have hlt : c < 0x110000 := by
    simp only [scalar, Bool.or_eq_true, Bool.and_eq_true, decide_eq_true_eq] at hs
    omega
  unfold encodePoint
  split
  · next h =>
    rw [List.singleton_append, scan_none_cons, toNat_byte (by omega), first, if_pos h]
    rfl
  · split
    · next h h' => exact scan_two (Nat.not_lt.mp h) h'
    · split
      · next h' h => exact scan_three (Nat.not_lt.mp h') h hs
      · next h => exact scan_four (Nat.not_lt.mp h) hlt

theorem scan_encode {s : Str} (hs : s.all scalar = true) :
    scan none (s.flatMap encodePoint) = s.map some := by
  induction s with
  | nil => rfl
  | cons c s ih =>
    rw [List.all_cons, Bool.and_eq_true] at hs
    rw [List.flatMap_cons, scan_encodePoint hs.1, ih hs.2, List.map_cons]

theorem decode_encode {s : Str} {bs : Bytes} (h : encode s = some bs) : decode bs = some s := by
  unfold encode at h
  split at h
  · next hs =>
    cases h
    have hm : ∀ l : Str, (l.map some).mapM id = some l := by
      intro l
      induction l with
      | nil => rfl
      | cons c l ih => simp [ih]
    rw [decode, scan_encode hs, hm]
  · cases h

theorem decodeReplace_encode {s : Str} {bs : Bytes} (h : encode s = some bs) :
    decodeReplace bs = s := by
  unfold encode at h
  split at h
  · next hs =>
    cases h
    rw [decodeReplace, scan_encode hs, List.map_map]
    exact List.map_id s
  · cases h

theorem encode_append {s t : Str} {a b : Bytes} (hs : encode s = some a) (ht : encode t = some b) :
    encode (s ++ t) = some (a ++ b) := by
  unfold encode at hs ht ⊢
  split at hs
  · next h =>
    split at ht
    · next h' =>
      cases hs
      cases ht
      rw [List.all_append, h, h', List.flatMap_append]
      rfl
    · cases ht
  · cases hs

theorem encode_isSome {s : Str} : (encode s).isSome = true ↔ s.all scalar = true := by
  unfold encode
  split
  · next h => exact iff_of_true rfl h
  · next h => exact iff_of_false nofun h

def ascii (s : Str) : Bool := s.all (· < 0x80)

theorem scalar_of_ascii {s : Str} (h : ascii s = true) : s.all scalar = true := by
  rw [ascii, List.all_eq_true] at h
  rw [List.all_eq_true]
  intro c hc
  have := h c hc
  simp only [decide_eq_true_eq] at this
  simp only [scalar, Bool.or_eq_true, decide_eq_true_eq]
  omega

theorem encode_ascii {s : Str} (h : ascii s = true) : encode s = some (s.map byte) := by
  rw [encode, if_pos (scalar_of_ascii h)]
  congr 1
  induction s with
  | nil => rfl
  | cons c s ih =>
    rw [ascii, List.all_cons, Bool.and_eq_true, decide_eq_true_eq] at h
    rw [List.flatMap_cons, ih h.2, encodePoint, if_pos h.1]
    rfl

end Utf8
