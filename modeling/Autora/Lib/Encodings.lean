import Autora.Lib.Utf8

/-! Bytes written in sixteen and in sixty-four letters, and read back. -/

namespace Encodings

open Untyped Utf8

/-! Hexadecimal. -/

/-- A digit in capitals, as `%XX` has them. -/
def capitalDigit (n : Nat) : Nat := if n < 10 then 48 + n else 55 + n

/-- A digit as `bytes.hex` has it. -/
def smallDigit (n : Nat) : Nat := if n < 10 then 48 + n else 87 + n

def hexValue (c : Nat) : Option Nat :=
  if 48 ≤ c ∧ c ≤ 57 then some (c - 48)
  else if 65 ≤ c ∧ c ≤ 70 then some (c - 55)
  else if 97 ≤ c ∧ c ≤ 102 then some (c - 87)
  else none

theorem hexValue_capitalDigit {n : Nat} (h : n < 16) : hexValue (capitalDigit n) = some n := by
  revert n
  decide

theorem hexValue_smallDigit {n : Nat} (h : n < 16) : hexValue (smallDigit n) = some n := by
  revert n
  decide

theorem capitalDigit_bounds {n : Nat} (h : n < 16) :
    48 ≤ capitalDigit n ∧ capitalDigit n ≤ 70 := by
  unfold capitalDigit
  split <;> omega

theorem smallDigit_bounds {n : Nat} (h : n < 16) : 48 ≤ smallDigit n ∧ smallDigit n ≤ 102 := by
  unfold smallDigit
  split <;> omega

theorem high_low (b : UInt8) : b.toNat / 16 < 16 ∧ b.toNat % 16 < 16 ∧
    b.toNat / 16 * 16 + b.toNat % 16 = b.toNat := by
  have := toNat_lt b
  omega

/-- `data.hex()`. -/
def hex (bs : Bytes) : Str :=
  bs.flatMap fun b => [smallDigit (b.toNat / 16), smallDigit (b.toNat % 16)]

def asciiSpace (c : Nat) : Bool := (9 ≤ c && c ≤ 13) || c = 32

/-- `bytes.fromhex(text)`; none where it raises. -/
def fromHex : Str → Option Bytes
  | [] => some []
  | c :: rest =>
    if asciiSpace c then fromHex rest
    else match rest with
      | [] => none
      | d :: rest => match hexValue c, hexValue d with
        | some a, some b => (fromHex rest).map (byte (a * 16 + b) :: ·)
        | _, _ => none

theorem not_asciiSpace_smallDigit {n : Nat} (h : n < 16) : asciiSpace (smallDigit n) = false := by
  have hb := smallDigit_bounds h
  simp only [asciiSpace, Bool.or_eq_false_iff, Bool.and_eq_false_iff, decide_eq_false_iff_not]
  omega

theorem fromHex_hex (bs : Bytes) : fromHex (hex bs) = some bs := by
  induction bs with
  | nil => rfl
  | cons b bs ih =>
    obtain ⟨hh, hl, hb⟩ := high_low b
    have hs : hex (b :: bs) =
        smallDigit (b.toNat / 16) :: smallDigit (b.toNat % 16) :: hex bs := rfl
    rw [hs, fromHex, if_neg (by simp [not_asciiSpace_smallDigit hh])]
    simp only [hexValue_smallDigit hh, hexValue_smallDigit hl, ih, Option.map_some, hb,
      byte_toNat]

theorem hex_digits {bs : Bytes} {c : Nat} (h : c ∈ hex bs) : ∃ n < 16, c = smallDigit n := by
  obtain ⟨b, -, hc⟩ := List.mem_flatMap.mp h
  obtain ⟨hh, hl, -⟩ := high_low b
  rcases List.mem_cons.mp hc with rfl | hc
  · exact ⟨_, hh, rfl⟩
  · exact ⟨_, hl, List.mem_singleton.mp hc⟩

/-! Base 64. -/

def letter (n : Nat) : UInt8 :=
  byte (if n < 26 then 65 + n else if n < 52 then 71 + n else if n < 62 then n - 4
    else if n = 62 then 43 else 47)

def letterValue (c : Nat) : Option Nat :=
  if 65 ≤ c ∧ c ≤ 90 then some (c - 65)
  else if 97 ≤ c ∧ c ≤ 122 then some (c - 71)
  else if 48 ≤ c ∧ c ≤ 57 then some (c + 4)
  else if c = 43 then some 62
  else if c = 47 then some 63
  else none

def pad : UInt8 := 61

theorem letterValue_letter {n : Nat} (h : n < 64) :
    letterValue (letter n).toNat = some n ∧ letter n ≠ pad ∧ letter n ≠ 58 := by
  revert n
  decide

/-- `b64encode(data)`. -/
def b64encode : Bytes → Bytes
  | [] => []
  | [a] => [letter (a.toNat / 4), letter (a.toNat % 4 * 16), pad, pad]
  | [a, b] => [letter (a.toNat / 4), letter (a.toNat % 4 * 16 + b.toNat / 16),
      letter (b.toNat % 16 * 4), pad]
  | a :: b :: c :: rest =>
    letter (a.toNat / 4) :: letter (a.toNat % 4 * 16 + b.toNat / 16) ::
      letter (b.toNat % 16 * 4 + c.toNat / 64) :: letter (c.toNat % 64) :: b64encode rest

/-- Where a reader stands: letters of the quad read, the bits left over, pads seen. -/
structure Quad where
  read : Nat
  left : Nat
  pads : Nat
  padding : Bool

/-- A letter read: the byte it ends, if any, and what follows. -/
def Quad.push (q : Quad) (v : Nat) : Option Nat × Quad :=
  match q.read with
  | 0 => (none, ⟨1, v, 0, false⟩)
  | 1 => (some (q.left * 4 + v / 16), ⟨2, v % 16, 0, false⟩)
  | 2 => (some (q.left * 16 + v / 4), ⟨3, v % 4, 0, false⟩)
  | _ => (some (q.left * 64 + v), ⟨0, 0, 0, false⟩)

def b64scan : Quad → Bytes → Option Bytes
  | q, [] => if q.read = 0 then some [] else none
  | q, c :: rest =>
    if c = pad then
      if 2 ≤ q.read ∧ 4 ≤ q.read + (q.pads + 1) then
        if rest = [] then some [] else none
      else b64scan { q with pads := if 2 ≤ q.read then q.pads + 1 else q.pads, padding := true } rest
    else match letterValue c.toNat with
      | none => none
      | some v =>
        if q.padding then none
        else (b64scan (q.push v).2 rest).map ((q.push v).1.map byte).toList.append

/-- `b64decode(data, validate=True)`; none where it raises. -/
def b64decode : Bytes → Option Bytes
  | [] => some []
  | c :: rest => if c = pad then none else b64scan ⟨0, 0, 0, false⟩ (c :: rest)

theorem b64scan_letter {q : Quad} {n : Nat} {rest : Bytes} (hn : n < 64)
    (hq : q.padding = false) :
    b64scan q (letter n :: rest) =
      (b64scan (q.push n).2 rest).map ((q.push n).1.map byte).toList.append := by
  obtain ⟨hv, hp, -⟩ := letterValue_letter hn
  rw [b64scan, if_neg hp, hv]
  simp [hq]

theorem b64scan_encode (bs : Bytes) : b64scan ⟨0, 0, 0, false⟩ (b64encode bs) = some bs := by
  induction bs using b64encode.induct with
  | case1 => rfl
  | case2 a =>
    have ha := toNat_lt a
    have hv : a.toNat / 4 * 4 + a.toNat % 4 * 16 / 16 = a.toNat := by omega
    rw [b64encode, b64scan_letter (by omega) rfl, b64scan_letter (by omega) rfl]
    simp only [Quad.push, hv]
    simp [b64scan]
  | case3 a b =>
    have ha := toNat_lt a
    have hb := toNat_lt b
    have hv : a.toNat / 4 * 4 + (a.toNat % 4 * 16 + b.toNat / 16) / 16 = a.toNat := by omega
    have hw : (a.toNat % 4 * 16 + b.toNat / 16) % 16 * 16 + b.toNat % 16 * 4 / 4 = b.toNat := by
      omega
    rw [b64encode, b64scan_letter (by omega) rfl, b64scan_letter (by omega) rfl,
      b64scan_letter (by omega) rfl]
    simp only [Quad.push, hv, hw]
    simp [b64scan]
  | case4 a b c rest ih =>
    have ha := toNat_lt a
    have hb := toNat_lt b
    have hc := toNat_lt c
    have hv : a.toNat / 4 * 4 + (a.toNat % 4 * 16 + b.toNat / 16) / 16 = a.toNat := by omega
    have hw : (a.toNat % 4 * 16 + b.toNat / 16) % 16 * 16 + (b.toNat % 16 * 4 + c.toNat / 64) / 4
        = b.toNat := by
      omega
    have hx : (b.toNat % 16 * 4 + c.toNat / 64) % 4 * 64 + c.toNat % 64 = c.toNat := by omega
    rw [b64encode, b64scan_letter (by omega) rfl, b64scan_letter (by omega) rfl,
      b64scan_letter (by omega) rfl, b64scan_letter (by omega) rfl]
    simp only [Quad.push, hv, hw, hx, ih]
    simp

theorem b64encode_cons (a : UInt8) (bs : Bytes) :
    ∃ rest, b64encode (a :: bs) = letter (a.toNat / 4) :: rest := by
  match bs with
  | [] => exact ⟨_, rfl⟩
  | [_] => exact ⟨_, rfl⟩
  | _ :: _ :: _ => exact ⟨_, rfl⟩

theorem b64decode_encode (bs : Bytes) : b64decode (b64encode bs) = some bs := by
  cases bs with
  | nil => rfl
  | cons a bs =>
    have ha := toNat_lt a
    have hs := b64scan_encode (a :: bs)
    obtain ⟨rest, he⟩ := b64encode_cons a bs
    rw [he] at hs ⊢
    rw [b64decode, if_neg (letterValue_letter (by omega)).2.1, hs]

theorem b64encode_not_colon (bs : Bytes) : ∀ c ∈ b64encode bs, c ≠ 58 := by
  induction bs using b64encode.induct with
  | case1 => simp [b64encode]
  | case2 a =>
    have ha := toNat_lt a
    simp only [b64encode, List.forall_mem_cons]
    exact ⟨(letterValue_letter (by omega)).2.2, (letterValue_letter (by omega)).2.2, by decide,
      by decide, by simp⟩
  | case3 a b =>
    have ha := toNat_lt a
    have hb := toNat_lt b
    simp only [b64encode, List.forall_mem_cons]
    exact ⟨(letterValue_letter (by omega)).2.2, (letterValue_letter (by omega)).2.2,
      (letterValue_letter (by omega)).2.2, by decide, by simp⟩
  | case4 a b c rest ih =>
    have ha := toNat_lt a
    have hb := toNat_lt b
    have hc := toNat_lt c
    simp only [b64encode, List.forall_mem_cons]
    exact ⟨(letterValue_letter (by omega)).2.2, (letterValue_letter (by omega)).2.2,
      (letterValue_letter (by omega)).2.2, (letterValue_letter (by omega)).2.2, ih⟩

/-! A separator. -/

/-- `data.partition(separator)`; none where there is none. -/
def partition (separator : Bytes) : Bytes → Option (Bytes × Bytes)
  | [] => if separator = [] then some ([], []) else none
  | b :: bs =>
    if separator.isPrefixOf (b :: bs) then some ([], (b :: bs).drop separator.length)
    else (partition separator bs).map fun p => (b :: p.1, p.2)

theorem partition_append {s : UInt8} {separator l r : Bytes} (hl : ∀ b ∈ l, b ≠ s) :
    partition (s :: separator) (l ++ (s :: separator) ++ r) = some (l, r) := by
  induction l with
  | nil =>
    have hp : (s :: separator).isPrefixOf (s :: (separator ++ r)) = true :=
      List.isPrefixOf_iff_prefix.mpr ⟨r, rfl⟩
    rw [List.nil_append, List.cons_append, partition, if_pos hp]
    simp
  | cons b l ih =>
    have hb := hl b List.mem_cons_self
    have hne : (s :: separator).isPrefixOf (b :: (l ++ (s :: separator) ++ r)) = false := by
      simp [List.isPrefixOf, Ne.symm hb]
    rw [List.cons_append, List.cons_append, partition, hne,
      ih fun x hx => hl x (List.mem_cons_of_mem b hx)]
    rfl

end Encodings
