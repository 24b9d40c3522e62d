import Autora.Lib.Forms
import Autora.Lib.Loops
import Autora.Lib.Texts

/-! PAYUNi's envelope: fields sealed and opened, and the notification read out of it. -/

namespace Autora.Payments

open Untyped Utf8 Encodings Forms Texts

/-- The ciphers, and what Python's library knows of numbers and letters. -/
structure Platform (D : Type) where
  /-- `AESGCM(key).encrypt(iv, data, None)`: the ciphertext, then the tag. -/
  encrypt : Bytes → Bytes → Bytes → Bytes
  /-- `AESGCM(key).decrypt(iv, data, None)`; none for `InvalidTag`. -/
  decrypt : Bytes → Bytes → Bytes → Option Bytes
  sha256 : Bytes → Bytes
  /-- The capitals of a character that is not ASCII. -/
  capitals : Nat → Str
  /-- `Decimal(text)`; none for `InvalidOperation`. -/
  decimal : Str → Option D
  repr : Option Str → Str

inductive Raised where
  | envelopeError (message : Str)
  | typeError
  | unicodeEncodeError
  | unicodeDecodeError
  deriving DecidableEq, Repr

inductive FieldValue where
  | str (text : Str)
  | int (n : Int)
  deriving DecidableEq, Repr

/-- `str(value)`. -/
def FieldValue.text : FieldValue → Str
  | str text => text
  | int n => lit (toString n)

structure Envelope where
  encryptInfo : Str
  hashInfo : Str
  deriving DecidableEq, Repr

abbrev Fields := List (Str × Str)

variable {D : Type} (pf : Platform D)

def refuse {α : Type} (message : String) : Except Raised α := .error (.envelopeError (lit message))

/-- A step that is refused with a message. -/
def orRefuse {α : Type} (message : String) : Option α → Except Raised α
  | some a => .ok a
  | none => refuse message

/-- `text.encode()`. -/
def encoded (s : Str) : Except Raised Bytes :=
  match encode s with
  | some bs => .ok bs
  | none => .error .unicodeEncodeError

/-- `text.upper()`. -/
def upper (s : Str) : Str :=
  s.flatMap fun c => if c < 128 then [if 97 ≤ c ∧ c ≤ 122 then c - 32 else c] else pf.capitals c

/-- `_material`. -/
def material (key iv : Str) : Except Raised (Bytes × Bytes) := do
  let keyBytes ← encoded (strip key)
  let ivBytes ← encoded (strip iv)
  if keyBytes.length ≠ 32 then
    refuse ("HashKey must be 32 characters, got " ++ toString keyBytes.length)
  else if ivBytes.length ≠ 16 then
    refuse ("HashIV must be 16 characters, got " ++ toString ivBytes.length)
  else pure (keyBytes, ivBytes)

def hashInfo (encryptInfo key iv : Str) : Except Raised Str := do
  let data ← encoded (strip key ++ encryptInfo ++ strip iv)
  pure (upper pf (hex (pf.sha256 data)))

def separator : Bytes := [58, 58, 58]

def sealFields (fields : List (Str × FieldValue)) (key iv : Str) : Except Raised Envelope := do
  let (keyBytes, ivBytes) ← material key iv
  let payload ← match urlencode (fields.map fun kv => (kv.1, kv.2.text)) with
    | some query => encoded query
    | none => .error .unicodeEncodeError
  let data := pf.encrypt keyBytes ivBytes payload
  let ciphertext := data.take (data.length - 16)
  let tag := data.drop (data.length - 16)
  let encryptInfo := hex (b64encode ciphertext ++ separator ++ b64encode tag)
  let hash ← hashInfo pf encryptInfo key iv
  pure ⟨encryptInfo, hash⟩

/-- What was sealed, of an envelope that was not edited. -/
def openPayload (encryptInfo key iv : Str) : Except Raised Bytes := do
  let (keyBytes, ivBytes) ← material key iv
  let joined ← orRefuse "EncryptInfo is not hexadecimal" (fromHex (strip encryptInfo))
  let (ciphertext, tag) ← orRefuse "EncryptInfo has no tag" (partition separator joined)
  let ciphertext ← orRefuse "EncryptInfo is not base64 inside" (b64decode ciphertext)
  let tag ← orRefuse "EncryptInfo is not base64 inside" (b64decode tag)
  orRefuse "this message was edited after it was sealed"
    (pf.decrypt keyBytes ivBytes (ciphertext ++ tag))

/-- `fields[name] = value`. -/
def put (fields : Fields) (kv : Str × Str) : Fields :=
  if fields.any fun x => x.1 = kv.1 then
    fields.map fun x => if x.1 = kv.1 then kv else x
  else fields ++ [kv]

/-- `dict(pairs)`. -/
def asDict (kvs : Fields) : Fields := kvs.foldl put []

def decoded (payload : Bytes) : Except Raised Str :=
  match decode payload with
  | some text => .ok text
  | none => .error .unicodeDecodeError

def openEnvelope (encryptInfo key iv : Str) : Except Raised Fields := do
  let payload ← openPayload pf encryptInfo key iv
  let text ← decoded payload
  pure (asDict (parseQsl text))

/-- The hash is compared as `hmac.compare_digest` does, which takes ASCII texts only. -/
def unsealFields (encryptInfo givenHash key iv : Str) : Except Raised Fields := do
  let expected ← hashInfo pf encryptInfo key iv
  let given := upper pf (strip givenHash)
  if !(ascii expected && ascii given) then .error .typeError
  else if expected ≠ given then refuse "HashInfo does not match: this did not come from PAYUNi"
  else openEnvelope pf encryptInfo key iv

structure Notification (D : Type) where
  status : Str
  merTradeNo : Str
  tradeNo : Str
  tradeAmt : D
  tradeStatus : Str
  paymentType : Str
  message : Str
  fields : Fields

/-- `Notification.paid`. -/
def Notification.paid (n : Notification D) : Bool :=
  n.status = lit "SUCCESS" && n.tradeStatus = lit "1"

/-- `fields.get(name, default)`. -/
def get (fields : Fields) (name : String) (default : Str := []) : Str :=
  (fields.lookup (lit name)).getD default

def readNotification (form : Fields) (key iv : Str) : Except Raised (Notification D) := do
  let encryptInfo := get form "EncryptInfo"
  let givenHash := get form "HashInfo"
  if encryptInfo = [] ∨ givenHash = [] then
    refuse "a notification is an EncryptInfo and a HashInfo; this is neither"
  else
    let fields ← unsealFields pf encryptInfo givenHash key iv
    match pf.decimal (get fields "TradeAmt") with
    | none => .error (.envelopeError
        (lit "TradeAmt " ++ pf.repr (fields.lookup (lit "TradeAmt")) ++ lit " is not a number"))
    | some amount => pure {
        status := get fields "Status" (get form "Status")
        merTradeNo := get fields "MerTradeNo"
        tradeNo := get fields "TradeNo"
        tradeAmt := amount
        tradeStatus := get fields "TradeStatus"
        paymentType := get fields "PaymentType"
        message := get fields "Message"
        fields := fields }

variable {pf} {key iv encryptInfo givenHash : Str} {fields : List (Str × FieldValue)}

/-! An envelope is opened to what was sealed in it. -/

/-- A key and an initialisation vector of the lengths the cipher takes. -/
structure Accepted (key iv : Str) (keyBytes ivBytes : Bytes) : Prop where
  key : encode (strip key) = some keyBytes
  keyLength : keyBytes.length = 32
  iv : encode (strip iv) = some ivBytes
  ivLength : ivBytes.length = 16

theorem encoded_ok {s : Str} {bs : Bytes} (h : encode s = some bs) : encoded s = .ok bs := by
  rw [encoded, h]

theorem material_accepted {keyBytes ivBytes : Bytes} (h : Accepted key iv keyBytes ivBytes) :
    material key iv = .ok (keyBytes, ivBytes) := by
  rw [material, encoded_ok h.key, encoded_ok h.iv]
  simp only [bind, Except.bind, h.keyLength, h.ivLength, ne_eq, not_true_eq_false, if_false]
  rfl

theorem ascii_hex (bs : Bytes) : ascii (hex bs) = true := by
  rw [ascii, List.all_eq_true]
  intro c hc
  obtain ⟨n, hn, rfl⟩ := hex_digits hc
  have hb := smallDigit_bounds hn
  exact decide_eq_true (by omega)

theorem strip_hex (bs : Bytes) : strip (hex bs) = hex bs := by
  apply strip_eq_self
  intro c hc
  obtain ⟨n, hn, rfl⟩ := hex_digits hc
  have hb := smallDigit_bounds hn
  exact isSpace_of_ascii (by omega) (by omega)

/-- The digest is in capitals already. -/
theorem upper_hex (bs : Bytes) : upper pf (hex bs) =
    bs.flatMap fun b => [capitalDigit (b.toNat / 16), capitalDigit (b.toNat % 16)] := by
  have hd : ∀ n, n < 16 → upper pf [smallDigit n] = [capitalDigit n] := by
    intro n hn
    have h : smallDigit n < 128 ∧ (if 97 ≤ smallDigit n ∧ smallDigit n ≤ 122 then
        smallDigit n - 32 else smallDigit n) = capitalDigit n := by
      revert n
      decide
    simp only [upper, List.flatMap_cons, List.flatMap_nil, if_pos h.1, h.2, List.append_nil]
  induction bs with
  | nil => rfl
  | cons b bs ih =>
    obtain ⟨hh, hl, -⟩ := high_low b
    have hs : hex (b :: bs) = [smallDigit (b.toNat / 16)] ++ [smallDigit (b.toNat % 16)] ++ hex bs :=
      rfl
    have hu : ∀ s t : Str, upper pf (s ++ t) = upper pf s ++ upper pf t :=
      fun s t => List.flatMap_append
    rw [hs, hu, hu, hd _ hh, hd _ hl, ih, List.flatMap_cons]
    rfl

theorem capitals_hex {bs : Bytes} {c : Nat} (h : c ∈ upper pf (hex bs)) :
    ∃ n < 16, c = capitalDigit n := by
  rw [upper_hex] at h
  obtain ⟨b, -, hc⟩ := List.mem_flatMap.mp h
  obtain ⟨hh, hl, -⟩ := high_low b
  rcases List.mem_cons.mp hc with rfl | hc
  · exact ⟨_, hh, rfl⟩
  · exact ⟨_, hl, List.mem_singleton.mp hc⟩

theorem ascii_digest (bs : Bytes) : ascii (upper pf (hex bs)) = true := by
  rw [ascii, List.all_eq_true]
  intro c hc
  obtain ⟨n, hn, rfl⟩ := capitals_hex hc
  have hb := capitalDigit_bounds hn
  exact decide_eq_true (by omega)

theorem upper_digest (bs : Bytes) :
    upper pf (strip (upper pf (hex bs))) = upper pf (hex bs) := by
  have hstrip : strip (upper pf (hex bs)) = upper pf (hex bs) := by
    apply strip_eq_self
    intro c hc
    obtain ⟨n, hn, rfl⟩ := capitals_hex hc
    have hb := capitalDigit_bounds hn
    exact isSpace_of_ascii (by omega) (by omega)
  have hid : ∀ s : Str, (∀ c ∈ s, ∃ n < 16, c = capitalDigit n) → upper pf s = s := by
    intro s hs
    induction s with
    | nil => rfl
    | cons c s ih =>
      obtain ⟨n, hn, rfl⟩ := hs c List.mem_cons_self
      have hb := capitalDigit_bounds hn
      have hd : capitalDigit n < 128 ∧ ¬ (97 ≤ capitalDigit n ∧ capitalDigit n ≤ 122) := by omega
      have hrest := ih fun c hc => hs c (List.mem_cons_of_mem _ hc)
      rw [upper] at hrest ⊢
      rw [List.flatMap_cons, hrest, if_pos hd.1, if_neg hd.2]
      rfl
  rw [hstrip]
  exact hid _ fun c hc => capitals_hex hc

/-- The hash of an envelope is accepted with it. -/
theorem unseal_own_hash {hash : Str} (h : hashInfo pf encryptInfo key iv = .ok hash) :
    unsealFields pf encryptInfo hash key iv = openEnvelope pf encryptInfo key iv := by
  have he : ∃ data, hash = upper pf (hex (pf.sha256 data)) := by
    unfold hashInfo at h
    obtain ⟨data, -, hd⟩ := Loops.bind_ok_iff.mp h
    cases hd
    exact ⟨data, rfl⟩
  obtain ⟨data, rfl⟩ := he
  simp only [unsealFields, h, bind, Except.bind, upper_digest, ascii_digest]
  simp

theorem put_new {fs : Fields} {kv : Str × Str} (h : kv.1 ∉ fs.map Prod.fst) :
    put fs kv = fs ++ [kv] := by
  have hany : ¬ (fs.any fun x => decide (x.1 = kv.1)) = true := by
    rw [List.any_eq_true]
    rintro ⟨x, hx, he⟩
    exact h (List.mem_map.mpr ⟨x, hx, of_decide_eq_true he⟩)
  rw [put, if_neg hany]

theorem asDict_distinct {fs : Fields} (h : (fs.map Prod.fst).Nodup) : asDict fs = fs := by
  have hgo : ∀ (l done : Fields), ((done ++ l).map Prod.fst).Nodup →
      l.foldl put done = done ++ l := by
    intro l
    induction l with
    | nil => exact fun done _ => (List.append_nil done).symm
    | cons kv l ih =>
      intro done hd
      have hnew : kv.1 ∉ done.map Prod.fst := by
        rw [List.map_append, List.map_cons, List.nodup_append] at hd
        exact fun hk => hd.2.2 _ hk _ List.mem_cons_self rfl
      have hs : done ++ kv :: l = (done ++ [kv]) ++ l := by simp
      rw [List.foldl_cons, put_new hnew, hs]
      exact ih _ (hs ▸ hd)
  exact hgo fs [] h

/-- What the ciphers are relied on for: data is decrypted as it was encrypted, and the tag is
sixteen bytes. -/
structure Platform.Authentic (pf : Platform D) : Prop where
  decrypts : ∀ key iv data, pf.decrypt key iv (pf.encrypt key iv data) = some data
  tag : ∀ key iv data, 16 ≤ (pf.encrypt key iv data).length

/-- A text without lone surrogates. -/
def Unicode (s : Str) : Prop := s.all scalar = true

theorem unicode_int (n : Int) : Unicode (lit (toString n)) := by
  apply List.all_eq_true.mpr
  intro c hc
  obtain ⟨x, -, rfl⟩ := List.mem_map.mp hc
  have hv := x.valid
  simp only [scalar, Bool.or_eq_true, Bool.and_eq_true, decide_eq_true_eq]
  rcases hv with h | ⟨h, h'⟩
  · exact Or.inl h
  · exact Or.inr ⟨by exact h, h'⟩

theorem urlencode_unicode {kvs : Fields} (h : ∀ kv ∈ kvs, Unicode kv.1 ∧ Unicode kv.2) :
    ∃ query, urlencode kvs = some query := by
  have hfield : ∀ kv ∈ kvs, ∃ t, field kv = some t := by
    intro kv hkv
    obtain ⟨hk, hv⟩ := h kv hkv
    unfold Unicode at hk hv
    simp [field, quotePlus, encode, hk, hv]
  have hall : ∃ ts, kvs.mapM field = some ts := by
    clear h
    induction kvs with
    | nil => exact ⟨[], rfl⟩
    | cons kv kvs ih =>
      obtain ⟨t, ht⟩ := hfield kv List.mem_cons_self
      obtain ⟨ts, hts⟩ := ih fun x hx => hfield x (List.mem_cons_of_mem _ hx)
      exact ⟨t :: ts, by rw [List.mapM_cons, ht, hts]; rfl⟩
  obtain ⟨ts, hts⟩ := hall
  exact ⟨_, by rw [urlencode, hts]; rfl⟩

def FieldValue.Unicode : FieldValue → Prop
  | .str text => Payments.Unicode text
  | .int _ => True

theorem FieldValue.Unicode.text {v : FieldValue} (h : v.Unicode) : Payments.Unicode v.text := by
  cases v with
  | str text => exact h
  | int n => exact unicode_int n

theorem hashInfo_ok {keyBytes ivBytes : Bytes} (hk : Accepted key iv keyBytes ivBytes)
    (bs : Bytes) : ∃ hash, hashInfo pf (hex bs) key iv = .ok hash := by
  have hdata := encode_append (encode_append hk.key (encode_ascii (ascii_hex bs))) hk.iv
  rw [hashInfo, encoded_ok hdata]
  exact ⟨_, rfl⟩

/-- What was put together from a ciphertext and its tag is taken apart again. -/
theorem openPayload_joined {keyBytes ivBytes ciphertext tag payload : Bytes}
    (hk : Accepted key iv keyBytes ivBytes)
    (hp : pf.decrypt keyBytes ivBytes (ciphertext ++ tag) = some payload) :
    openPayload pf (hex (b64encode ciphertext ++ separator ++ b64encode tag)) key iv =
      .ok payload := by
  have hsep : partition separator (b64encode ciphertext ++ separator ++ b64encode tag) =
      some (b64encode ciphertext, b64encode tag) :=
    partition_append (b64encode_not_colon ciphertext)
  simp only [openPayload, material_accepted hk, strip_hex, fromHex_hex, hsep, b64decode_encode, hp,
    orRefuse, bind, Except.bind]

/-- What is sealed is opened again, every value as text. -/
theorem unseal_seal (hpf : pf.Authentic) {keyBytes ivBytes : Bytes}
    (hk : Accepted key iv keyBytes ivBytes) (hd : (fields.map Prod.fst).Nodup)
    (hu : ∀ kv ∈ fields, Unicode kv.1 ∧ kv.2.Unicode) :
    ∃ env, sealFields pf fields key iv = .ok env ∧
      unsealFields pf env.encryptInfo env.hashInfo key iv =
        .ok (fields.map fun kv => (kv.1, kv.2.text)) := by
  have hu' : ∀ kv ∈ fields.map fun kv => (kv.1, kv.2.text), Unicode kv.1 ∧ Unicode kv.2 := by
    intro kv hkv
    obtain ⟨x, hx, rfl⟩ := List.mem_map.mp hkv
    exact ⟨(hu x hx).1, (hu x hx).2.text⟩
  obtain ⟨query, hq⟩ := urlencode_unicode hu'
  have hpayload := encode_ascii (ascii_urlencode hq)
  let data := pf.encrypt keyBytes ivBytes (query.map byte)
  let joined := b64encode (data.take (data.length - 16)) ++ separator ++
    b64encode (data.drop (data.length - 16))
  obtain ⟨hash, hh⟩ := @hashInfo_ok _ pf key iv keyBytes ivBytes hk joined
  refine ⟨⟨hex joined, hash⟩, ?_, ?_⟩
  · have hs : sealFields pf fields key iv =
        (hashInfo pf (hex joined) key iv >>= fun hash => pure (Envelope.mk (hex joined) hash)) := by
      simp only [sealFields, material_accepted hk, hq, encoded_ok hpayload, bind, Except.bind]
      rfl
    rw [hs, hh]
    rfl
  · have hdata : pf.decrypt keyBytes ivBytes (data.take (data.length - 16) ++
        data.drop (data.length - 16)) = some (query.map byte) := by
      rw [List.take_append_drop]
      exact hpf.decrypts _ _ _
    have hdict : asDict (fields.map fun kv => (kv.1, kv.2.text)) =
        fields.map fun kv => (kv.1, kv.2.text) := by
      apply asDict_distinct
      rw [List.map_map]
      exact hd
    rw [unseal_own_hash hh, openEnvelope, openPayload_joined hk hdata]
    simp only [bind, Except.bind, decoded, decode_encode hpayload, parseQsl_urlencode hq, hdict]
    rfl

/-- A cipher that hides nothing and a digest of nothing, for envelopes that are looked at. -/
def clearPlatform : Platform Nat where
  encrypt _ _ data := data ++ List.replicate 16 0
  decrypt _ _ data := some (data.take (data.length - 16))
  sha256 _ := List.replicate 32 0
  capitals c := [c]
  decimal _ := none
  repr _ := []

theorem clearPlatform_authentic : clearPlatform.Authentic := by
  refine ⟨fun _ _ data => ?_, fun _ _ data => ?_⟩
  · simp [clearPlatform]
  · simp [clearPlatform]

def sampleKey : Str := List.replicate 32 97

def sampleIv : Str := List.replicate 16 98

theorem sample_accepted :
    Accepted sampleKey sampleIv (List.replicate 32 97) (List.replicate 16 98) :=
  ⟨by decide +kernel, by decide, by decide +kernel, by decide⟩

theorem unseal_seal_reserved :
    ∃ env, sealFields clearPlatform
        [(lit "a&b", .str (lit "1+1=100% é")), (lit "TradeAmt", .int 300), ([], .str [])]
        sampleKey sampleIv = .ok env ∧
      unsealFields clearPlatform env.encryptInfo env.hashInfo sampleKey sampleIv =
        .ok [(lit "a&b", lit "1+1=100% é"), (lit "TradeAmt", lit "300"), ([], [])] :=
  unseal_seal clearPlatform_authentic sample_accepted (by decide +kernel) (by
    have hs : Unicode (lit "a&b") ∧ Unicode (lit "1+1=100% é") ∧ Unicode (lit "TradeAmt") := by
      unfold Unicode
      decide +kernel
    simp only [List.forall_mem_cons]
    exact ⟨⟨hs.1, hs.2.1⟩, ⟨hs.2.2, trivial⟩, ⟨rfl, rfl⟩, nofun⟩)

end Autora.Payments
