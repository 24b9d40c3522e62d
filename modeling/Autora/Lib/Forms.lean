import Autora.Lib.Encodings

/-! Texts percent-encoded, and lists of names and values written as one text of a form. -/

namespace Forms

open Untyped Utf8 Encodings

/-- A character `quote` leaves as it is. -/
def alwaysSafe (c : Nat) : Bool :=
  (65 ≤ c && c ≤ 90) || (97 ≤ c && c ≤ 122) || (48 ≤ c && c ≤ 57) ||
    c = 95 || c = 46 || c = 45 || c = 126

def quoteByte (b : UInt8) : Str :=
  if b.toNat = 32 then [43]
  else if alwaysSafe b.toNat then [b.toNat]
  else [37, capitalDigit (b.toNat / 16), capitalDigit (b.toNat % 16)]

/-- `quote_plus(text)`; none where it raises. -/
def quotePlus (s : Str) : Option Str := (encode s).map (List.flatMap quoteByte)

/-- The byte of an escape, from the two characters after its `%`. -/
def escaped : Str → Option UInt8
  | x :: y :: _ => do
    let a ← hexValue x
    let b ← hexValue y
    pure (byte (a * 16 + b))
  | _ => none

/-- The bytes of the ASCII characters and of the escapes, between the other characters; `n`
characters are passed over. -/
def pieces : Nat → Str → List (UInt8 ⊕ Nat)
  | _, [] => []
  | n + 1, _ :: rest => pieces n rest
  | 0, c :: rest =>
    if c = 37 then match escaped rest with
      | some b => .inl b :: pieces 2 rest
      | none => .inl 37 :: pieces 0 rest
    else (if c < 128 then .inl (byte c) else .inr c) :: pieces 0 rest

/-- The runs of bytes are read as UTF-8. -/
def joinPieces (run : Bytes) : List (UInt8 ⊕ Nat) → Str
  | [] => decodeReplace run
  | .inl b :: ps => joinPieces (run ++ [b]) ps
  | .inr c :: ps => decodeReplace run ++ c :: joinPieces [] ps

/-- `unquote(text)`. -/
def unquote (s : Str) : Str := joinPieces [] (pieces 0 s)

def unquotePlus (s : Str) : Str := unquote (s.map fun c => if c = 43 then 32 else c)

/-- `name=value`, quoted. -/
def field (kv : Str × Str) : Option Str := do
  let name ← quotePlus kv.1
  let value ← quotePlus kv.2
  pure (name ++ 61 :: value)

/-- `urlencode(pairs)`; none where it raises. -/
def urlencode (kvs : List (Str × Str)) : Option Str :=
  (kvs.mapM field).map fun fields => [38].intercalate fields

def readField (s : Str) : Str × Str :=
  (unquotePlus (s.takeWhile (· ≠ 61)), unquotePlus ((s.dropWhile (· ≠ 61)).drop 1))

/-- `parse_qsl(query, keep_blank_values=True)`. -/
def parseQsl (query : Str) : List (Str × Str) :=
  ((query.splitOn 38).filter (· ≠ [])).map readField

/-! What is written is read back. -/

/-- The characters of a quoted text. -/
def quoted (c : Nat) : Bool := alwaysSafe c || c = 43 || c = 37

theorem quoted_capitalDigit {n : Nat} (h : n < 16) :
    quoted (capitalDigit n) = true ∧ capitalDigit n ≠ 43 := by
  revert n
  decide

theorem quoted_quoteByte {b : UInt8} {c : Nat} (h : c ∈ quoteByte b) : quoted c = true := by
  obtain ⟨hh, hl, -⟩ := high_low b
  unfold quoteByte at h
  split at h
  · rw [List.mem_singleton.mp h]
    rfl
  · split at h
    · next hs =>
      rw [List.mem_singleton.mp h]
      simp [quoted, hs]
    · rcases List.mem_cons.mp h with rfl | h
      · rfl
      · rcases List.mem_cons.mp h with rfl | h
        · exact (quoted_capitalDigit hh).1
        · rw [List.mem_singleton.mp h]
          exact (quoted_capitalDigit hl).1

theorem quoted_quotePlus {s t : Str} (h : quotePlus s = some t) : ∀ c ∈ t, quoted c = true := by
  obtain ⟨bs, -, rfl⟩ := Option.map_eq_some_iff.mp h
  intro c hc
  obtain ⟨b, -, hb⟩ := List.mem_flatMap.mp hc
  exact quoted_quoteByte hb

theorem alwaysSafe_bounds {c : Nat} (h : alwaysSafe c = true) : c < 128 ∧ c ≠ 37 ∧ c ≠ 43 := by
  simp only [alwaysSafe, Bool.or_eq_true, Bool.and_eq_true, decide_eq_true_eq] at h
  omega

theorem pieces_quoteByte (b : UInt8) (rest : Str) :
    pieces 0 ((quoteByte b).map (fun c => if c = 43 then 32 else c) ++ rest) =
      .inl b :: pieces 0 rest := by
  unfold quoteByte
  split
  · next h =>
    have hb : b = byte 32 := by rw [← h, byte_toNat]
    rw [hb]
    rfl
  · split
    · next hs =>
      obtain ⟨hlt, hp, hq⟩ := alwaysSafe_bounds hs
      simp only [List.map_cons, List.map_nil, if_neg hq, List.singleton_append, pieces, if_neg hp,
        if_pos hlt, byte_toNat]
    · obtain ⟨hh, hl, hb⟩ := high_low b
      have he : escaped (capitalDigit (b.toNat / 16) :: capitalDigit (b.toNat % 16) :: rest) =
          some b := by
        simp [escaped, hexValue_capitalDigit hh, hexValue_capitalDigit hl, hb]
      simp only [List.map_cons, List.map_nil, if_neg (quoted_capitalDigit hh).2,
        if_neg (quoted_capitalDigit hl).2, List.cons_append, List.nil_append]
      rw [if_neg (by decide), pieces, if_pos rfl, he]
      rfl

theorem pieces_quoted (bs : Bytes) :
    pieces 0 ((bs.flatMap quoteByte).map fun c => if c = 43 then 32 else c) = bs.map .inl := by
  induction bs with
  | nil => rfl
  | cons b bs ih =>
    rw [List.flatMap_cons, List.map_append, pieces_quoteByte, ih, List.map_cons]

theorem joinPieces_bytes (bs : Bytes) : ∀ run, joinPieces run (bs.map .inl) =
    decodeReplace (run ++ bs) := by
  induction bs with
  | nil => simp [joinPieces]
  | cons b bs ih =>
    intro run
    rw [List.map_cons, joinPieces, ih]
    simp

theorem unquotePlus_quotePlus {s t : Str} (h : quotePlus s = some t) : unquotePlus t = s := by
  obtain ⟨bs, hb, rfl⟩ := Option.map_eq_some_iff.mp h
  rw [unquotePlus, unquote, pieces_quoted, joinPieces_bytes, List.nil_append,
    decodeReplace_encode hb]

theorem ascii_quotePlus {s t : Str} (h : quotePlus s = some t) : ascii t = true := by
  rw [ascii, List.all_eq_true]
  intro c hc
  have hq := quoted_quotePlus h c hc
  simp only [quoted, Bool.or_eq_true, decide_eq_true_eq] at hq
  apply decide_eq_true
  rcases hq with (hq | hq) | hq
  · exact (alwaysSafe_bounds hq).1
  · omega
  · omega

theorem readField_field {kv : Str × Str} {t : Str} (h : field kv = some t) :
    readField t = kv ∧ t ≠ [] ∧ 38 ∉ t ∧ ascii t = true := by
  obtain ⟨name, hn, h⟩ := Option.bind_eq_some_iff.mp h
  obtain ⟨value, hv, h⟩ := Option.bind_eq_some_iff.mp h
  cases h
  have hname : ∀ c ∈ name, c ≠ 61 := by
    rintro c hc rfl
    cases quoted_quotePlus hn _ hc
  have htake : (name ++ 61 :: value).takeWhile (· ≠ 61) = name := by
    rw [List.takeWhile_append_of_pos (by simpa using hname)]
    simp
  have hdrop : (name ++ 61 :: value).dropWhile (· ≠ 61) = 61 :: value := by
    rw [List.dropWhile_append_of_pos (by simpa using hname)]
    simp
  refine ⟨?_, by simp, ?_, ?_⟩
  · rw [readField, htake, hdrop, unquotePlus_quotePlus hn, List.drop_one, List.tail_cons,
      unquotePlus_quotePlus hv]
  · intro hc
    rcases List.mem_append.mp hc with hc | hc
    · cases quoted_quotePlus hn _ hc
    · rcases List.mem_cons.mp hc with hc | hc
      · cases hc
      · cases quoted_quotePlus hv _ hc
  · have hname := ascii_quotePlus hn
    have hvalue := ascii_quotePlus hv
    unfold ascii at hname hvalue ⊢
    rw [List.all_append, List.all_cons, hname, hvalue]
    rfl

theorem fields_read {kvs : List (Str × Str)} {fields : List Str}
    (h : kvs.mapM field = some fields) :
    fields.map readField = kvs ∧ ∀ t ∈ fields, t ≠ [] ∧ 38 ∉ t ∧ ascii t = true := by
  induction kvs generalizing fields with
  | nil =>
    cases h
    simp
  | cons kv kvs ih =>
    rw [List.mapM_cons] at h
    obtain ⟨t, ht, h⟩ := Option.bind_eq_some_iff.mp h
    obtain ⟨ts, hts, h⟩ := Option.bind_eq_some_iff.mp h
    cases h
    obtain ⟨hr, hfield⟩ := readField_field ht
    obtain ⟨hrs, hall⟩ := ih hts
    exact ⟨by rw [List.map_cons, hr, hrs], List.forall_mem_cons.mpr ⟨hfield, hall⟩⟩

/-- A form that could be written is read as it was. -/
theorem parseQsl_urlencode {kvs : List (Str × Str)} {query : Str}
    (h : urlencode kvs = some query) : parseQsl query = kvs := by
  obtain ⟨fields, hf, rfl⟩ := Option.map_eq_some_iff.mp h
  obtain ⟨hr, hall⟩ := fields_read hf
  cases fields with
  | nil =>
    rw [← hr]
    rfl
  | cons t ts =>
    rw [parseQsl, List.splitOn_intercalate 38 (fun l hl => (hall l hl).2.1) (by simp),
      List.filter_eq_self.mpr (fun l hl => by simpa using (hall l hl).1), hr]

theorem ascii_intercalate {fields : List Str} (h : ∀ t ∈ fields, ascii t = true) :
    ascii ([38].intercalate fields) = true := by
  induction fields with
  | nil => rfl
  | cons t ts ih =>
    have ht := h t List.mem_cons_self
    have hrest := ih fun x hx => h x (List.mem_cons_of_mem t hx)
    cases ts with
    | nil => simpa using ht
    | cons u us =>
      rw [List.intercalate_cons_cons]
      simp only [ascii, List.all_append, Bool.and_eq_true] at ht hrest ⊢
      exact ⟨⟨ht, rfl⟩, hrest⟩

/-- A written form is ASCII. -/
theorem ascii_urlencode {kvs : List (Str × Str)} {query : Str} (h : urlencode kvs = some query) :
    ascii query = true := by
  obtain ⟨fields, hf, rfl⟩ := Option.map_eq_some_iff.mp h
  exact ascii_intercalate fun t ht => ((fields_read hf).2 t ht).2.2

theorem forall_of_mapM {α β : Type} {f : α → Option β} {P : β → Prop} {xs : List α} {ys : List β}
    (hf : ∀ x y, f x = some y → P y) (h : xs.mapM f = some ys) : ∀ y ∈ ys, P y := by
  induction xs generalizing ys with
  | nil =>
    cases h
    exact fun y hy => absurd hy List.not_mem_nil
  | cons x xs ih =>
    rw [List.mapM_cons] at h
    obtain ⟨y, hy, h⟩ := Option.bind_eq_some_iff.mp h
    obtain ⟨rest, hrest, h⟩ := Option.bind_eq_some_iff.mp h
    cases h
    exact List.forall_mem_cons.mpr ⟨hf x y hy, ih hrest⟩

theorem field_chars {kv : Str × Str} {t : Str} (h : field kv = some t) :
    ∀ c ∈ t, quoted c = true ∨ c = 61 := by
  obtain ⟨name, hn, h⟩ := Option.bind_eq_some_iff.mp h
  obtain ⟨value, hv, h⟩ := Option.bind_eq_some_iff.mp h
  cases h
  intro c hc
  rcases List.mem_append.mp hc with hc | hc
  · exact Or.inl (quoted_quotePlus hn c hc)
  · rcases List.mem_cons.mp hc with hc | hc
    · exact Or.inr hc
    · exact Or.inl (quoted_quotePlus hv c hc)

/-- A written form has quoted characters, `=` and `&`. -/
theorem urlencode_chars {kvs : List (Str × Str)} {query : Str} (h : urlencode kvs = some query) :
    ∀ c ∈ query, quoted c = true ∨ c = 61 ∨ c = 38 := by
  obtain ⟨fields, hf, rfl⟩ := Option.map_eq_some_iff.mp h
  have hfields : ∀ t ∈ fields, ∀ c ∈ t, quoted c = true ∨ c = 61 ∨ c = 38 :=
    forall_of_mapM (fun _ _ hkv c hc => (field_chars hkv c hc).imp_right Or.inl) hf
  clear hf h
  induction fields with
  | nil => exact fun c hc => absurd hc List.not_mem_nil
  | cons t ts ih =>
    have hrest := ih fun x hx => hfields x (List.mem_cons_of_mem t hx)
    cases ts with
    | nil =>
      intro c hc
      exact hfields t List.mem_cons_self c (by simpa using hc)
    | cons u us =>
      intro c hc
      rw [List.intercalate_cons_cons] at hc
      rcases List.mem_append.mp hc with hc | hc
      · rcases List.mem_append.mp hc with hc | hc
        · exact hfields t List.mem_cons_self c hc
        · exact Or.inr (Or.inr (List.mem_singleton.mp hc))
      · exact hrest c hc

end Forms
