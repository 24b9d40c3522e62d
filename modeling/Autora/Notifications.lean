import Autora.Payuni

/-! When only what was sealed counts in a notification. -/

namespace Autora.Payments

open Untyped Utf8 Encodings Forms Texts Loops

variable {D : Type} {pf : Platform D} {key iv encryptInfo givenHash : Str} {form form' fields : Fields}

def isEnvelopeError (r : Raised) : Prop := ∃ message, r = .envelopeError message

/-- Forms that differ in the fields beside the envelope only. -/
def SameEnvelope (form form' : Fields) : Prop :=
  get form' "EncryptInfo" = get form "EncryptInfo" ∧ get form' "HashInfo" = get form "HashInfo"

/-- The form is read or refused, by its envelope alone. -/
def SealedOnly (pf : Platform D) (key iv : Str) (form : Fields) : Prop :=
  ((∃ n, readNotification pf form key iv = .ok n) ∨
    ∃ message, readNotification pf form key iv = .error (.envelopeError message)) ∧
  ∀ form', SameEnvelope form form' →
    readNotification pf form' key iv = readNotification pf form key iv

/-- A payload whose fields have a `Status`, or an amount that is no number. -/
def StatesStatus (pf : Platform D) (payload : Bytes) : Prop :=
  ∃ text, decode payload = some text ∧
    (((asDict (parseQsl text)).lookup (lit "Status")).isSome = true ∨
      pf.decimal (get (asDict (parseQsl text)) "TradeAmt") = none)

/-- An envelope that can be hashed, with a hash it can be compared with; and where it opens,
text inside that has a `Status`. -/
structure Legible (pf : Platform D) (key iv encryptInfo givenHash : Str) : Prop where
  encodes : (encode (strip key ++ encryptInfo ++ strip iv)).isSome = true
  ascii : ascii (upper pf (strip givenHash)) = true
  status : ∀ payload, hashInfo pf encryptInfo key iv = .ok (upper pf (strip givenHash)) →
    openPayload pf encryptInfo key iv = .ok payload → StatesStatus pf payload

/-- What is made of the fields that were sealed. -/
def notify (pf : Platform D) (posted : Str) (fields : Fields) : Except Raised (Notification D) :=
  match pf.decimal (get fields "TradeAmt") with
  | none => .error (.envelopeError
      (lit "TradeAmt " ++ pf.repr (fields.lookup (lit "TradeAmt")) ++ lit " is not a number"))
  | some amount => pure {
      status := get fields "Status" posted
      merTradeNo := get fields "MerTradeNo"
      tradeNo := get fields "TradeNo"
      tradeAmt := amount
      tradeStatus := get fields "TradeStatus"
      paymentType := get fields "PaymentType"
      message := get fields "Message"
      fields := fields }

theorem read_eq (h : get form "EncryptInfo" ≠ []) (h' : get form "HashInfo" ≠ []) :
    readNotification pf form key iv =
      (unsealFields pf (get form "EncryptInfo") (get form "HashInfo") key iv >>=
        notify pf (get form "Status")) := by
  have hne : ¬ (get form "EncryptInfo" = [] ∨ get form "HashInfo" = []) := by simp [h, h']
  rw [readNotification]
  exact if_neg hne

theorem read_empty (h : get form "EncryptInfo" = [] ∨ get form "HashInfo" = []) :
    readNotification pf form key iv =
      refuse "a notification is an EncryptInfo and a HashInfo; this is neither" := by
  rw [readNotification]
  exact if_pos h

theorem notify_raises {posted : Str} : RaisesOnly isEnvelopeError (notify pf posted fields) := by
  unfold notify
  split
  · exact raisesOnly_error.mpr ⟨_, rfl⟩
  · exact raisesOnly_pure

theorem notify_same {posted posted' : Str}
    (h : (fields.lookup (lit "Status")).isSome = true ∨
      pf.decimal (get fields "TradeAmt") = none) :
    notify pf posted fields = notify pf posted' fields := by
  unfold notify
  rcases h with h | h
  · obtain ⟨s, hs⟩ := Option.isSome_iff_exists.mp h
    simp only [get, hs, Option.getD_some]
  · rw [h]

theorem notify_differs {posted posted' : Str} {amount : D}
    (hs : fields.lookup (lit "Status") = none)
    (ha : pf.decimal (get fields "TradeAmt") = some amount)
    (h : notify pf posted fields = notify pf posted' fields) : posted = posted' := by
  unfold notify at h
  rw [ha] at h
  simp only [get, hs, Option.getD_none] at h
  have hn := Except.ok.inj h
  exact congrArg Notification.status hn

/-! What opening raises. -/

theorem raises_refuse {α : Type} {message : String} :
    RaisesOnly isEnvelopeError (refuse message : Except Raised α) :=
  raisesOnly_error.mpr ⟨_, rfl⟩

theorem raises_orRefuse {α : Type} {message : String} {o : Option α} :
    RaisesOnly isEnvelopeError (orRefuse message o) := by
  cases o with
  | none => exact raises_refuse
  | some a => exact raisesOnly_ok

theorem raises_material (hk : (encode (strip key)).isSome = true)
    (hi : (encode (strip iv)).isSome = true) : RaisesOnly isEnvelopeError (material key iv) := by
  obtain ⟨kb, hkb⟩ := Option.isSome_iff_exists.mp hk
  obtain ⟨ib, hib⟩ := Option.isSome_iff_exists.mp hi
  rw [material, encoded_ok hkb, encoded_ok hib]
  simp only [bind, Except.bind]
  split
  · exact raises_refuse
  · split
    · exact raises_refuse
    · exact raisesOnly_pure

theorem raises_openPayload (hk : (encode (strip key)).isSome = true)
    (hi : (encode (strip iv)).isSome = true) :
    RaisesOnly isEnvelopeError (openPayload pf encryptInfo key iv) := by
  unfold openPayload
  refine raisesOnly_bind.mpr ⟨raises_material hk hi, fun m _ => ?_⟩
  refine raisesOnly_bind.mpr ⟨raises_orRefuse, fun joined _ => ?_⟩
  refine raisesOnly_bind.mpr ⟨raises_orRefuse, fun parts _ => ?_⟩
  refine raisesOnly_bind.mpr ⟨raises_orRefuse, fun ciphertext _ => ?_⟩
  exact raisesOnly_bind.mpr ⟨raises_orRefuse, fun tag _ => raises_orRefuse⟩

theorem hashInfo_cases :
    (∃ data, encode (strip key ++ encryptInfo ++ strip iv) = some data ∧
      hashInfo pf encryptInfo key iv = .ok (upper pf (hex (pf.sha256 data)))) ∨
    (encode (strip key ++ encryptInfo ++ strip iv) = none ∧
      hashInfo pf encryptInfo key iv = .error .unicodeEncodeError) := by
  unfold hashInfo encoded
  cases encode (strip key ++ encryptInfo ++ strip iv) with
  | none => exact Or.inr ⟨rfl, rfl⟩
  | some data => exact Or.inl ⟨data, rfl, rfl⟩

/-- A hash that is compared and is the right one opens the envelope; a wrong one is refused. -/
theorem unseal_compared {data : Bytes}
    (hh : hashInfo pf encryptInfo key iv = .ok (upper pf (hex (pf.sha256 data))))
    (ha : ascii (upper pf (strip givenHash)) = true) :
    unsealFields pf encryptInfo givenHash key iv =
      if upper pf (hex (pf.sha256 data)) ≠ upper pf (strip givenHash) then
        refuse "HashInfo does not match: this did not come from PAYUNi"
      else openEnvelope pf encryptInfo key iv := by
  simp only [unsealFields, hh, bind, Except.bind, ascii_digest, ha]
  rfl

theorem unseal_not_ascii {data : Bytes}
    (hh : hashInfo pf encryptInfo key iv = .ok (upper pf (hex (pf.sha256 data))))
    (ha : ascii (upper pf (strip givenHash)) = false) :
    unsealFields pf encryptInfo givenHash key iv = .error .typeError := by
  simp only [unsealFields, hh, bind, Except.bind, ha, Bool.and_false]
  rfl

theorem unseal_not_encoded
    (hh : hashInfo pf encryptInfo key iv = .error .unicodeEncodeError) :
    unsealFields pf encryptInfo givenHash key iv = .error .unicodeEncodeError := by
  simp only [unsealFields, hh, bind, Except.bind]

/-- An envelope whose payload is text opens to its fields, and one whose payload is not raises. -/
theorem open_payload {payload : Bytes} (hp : openPayload pf encryptInfo key iv = .ok payload) :
    openEnvelope pf encryptInfo key iv =
      match decode payload with
      | some text => .ok (asDict (parseQsl text))
      | none => .error .unicodeDecodeError := by
  simp only [openEnvelope, hp, bind, Except.bind, decoded]
  cases decode payload with
  | none => rfl
  | some text => rfl

theorem encodes_parts (h : (encode (strip key ++ encryptInfo ++ strip iv)).isSome = true) :
    (encode (strip key)).isSome = true ∧ (encode (strip iv)).isSome = true := by
  rw [encode_isSome, List.all_append, List.all_append, Bool.and_eq_true, Bool.and_eq_true] at h
  exact ⟨encode_isSome.mpr h.1.1, encode_isSome.mpr h.2⟩

theorem Legible.unseal (h : Legible pf key iv encryptInfo givenHash) :
    RaisesOnly isEnvelopeError (unsealFields pf encryptInfo givenHash key iv) ∧
      ∀ fields, unsealFields pf encryptInfo givenHash key iv = .ok fields →
        (fields.lookup (lit "Status")).isSome = true ∨
          pf.decimal (get fields "TradeAmt") = none := by
  rcases @hashInfo_cases _ pf key iv encryptInfo with ⟨data, -, hh⟩ | ⟨he, -⟩
  · rw [unseal_compared hh h.ascii]
    split
    · refine ⟨raises_refuse, ?_⟩
      intro fields hf
      cases hf
    · next heq =>
      rw [not_not] at heq
      obtain ⟨hk, hi⟩ := encodes_parts h.encodes
      cases hp : openPayload pf encryptInfo key iv with
      | error r =>
        have hopen : openEnvelope pf encryptInfo key iv = .error r := by
          simp only [openEnvelope, hp, bind, Except.bind]
        rw [hopen]
        refine ⟨raisesOnly_error.mpr (raises_openPayload hk hi r hp), ?_⟩
        intro fields hf
        cases hf
      | ok payload =>
        obtain ⟨text, ht, hs⟩ := h.status payload (heq ▸ hh) hp
        rw [open_payload hp, ht]
        refine ⟨raisesOnly_ok, ?_⟩
        intro fields hf
        cases hf
        exact hs
  · have := h.encodes
    rw [he] at this
    cases this

theorem Legible.sealedOnly (hl : Legible pf key iv (get form "EncryptInfo") (get form "HashInfo"))
    (he : get form "EncryptInfo" ≠ []) (hh : get form "HashInfo" ≠ []) :
    SealedOnly pf key iv form := by
  obtain ⟨hr, hs⟩ := hl.unseal
  refine ⟨?_, ?_⟩
  · rw [read_eq he hh]
    have hraises := raisesOnly_bind.mpr ⟨hr, fun fields _ =>
      @notify_raises _ pf fields (get form "Status")⟩
    cases hx : unsealFields pf (get form "EncryptInfo") (get form "HashInfo") key iv >>=
        notify pf (get form "Status") with
    | ok n => exact Or.inl ⟨n, rfl⟩
    | error r =>
      obtain ⟨message, rfl⟩ := hraises r hx
      exact Or.inr ⟨message, rfl⟩
  · intro form' hsame
    rw [read_eq he hh, read_eq (hsame.1 ▸ he) (hsame.2 ▸ hh), hsame.1, hsame.2]
    cases hu : unsealFields pf (get form "EncryptInfo") (get form "HashInfo") key iv with
    | error r => rfl
    | ok fields => exact notify_same (hs fields hu)

/-- The form with the envelope of another and a status of its own. -/
def reposted (form : Fields) (status : Str) : Fields :=
  [(lit "EncryptInfo", get form "EncryptInfo"), (lit "HashInfo", get form "HashInfo"),
    (lit "Status", status)]

theorem reposted_get (form : Fields) (status : Str) :
    SameEnvelope form (reposted form status) ∧ get (reposted form status) "Status" = status := by
  have h1 : (lit "HashInfo" == lit "EncryptInfo") = false := by decide +kernel
  have h2 : (lit "Status" == lit "EncryptInfo") = false := by decide +kernel
  have h3 : (lit "Status" == lit "HashInfo") = false := by decide +kernel
  refine ⟨⟨?_, ?_⟩, ?_⟩
  · simp [get, reposted]
  · simp [get, reposted, List.lookup_cons, h1]
  · simp [get, reposted, List.lookup_cons, h2, h3]

/-- Only what was sealed counts, exactly where there is no envelope or a legible one. -/
theorem sealedOnly_iff (pf : Platform D) (key iv : Str) (form : Fields) :
    SealedOnly pf key iv form ↔ get form "EncryptInfo" = [] ∨ get form "HashInfo" = [] ∨
      Legible pf key iv (get form "EncryptInfo") (get form "HashInfo") := by
  by_cases hempty : get form "EncryptInfo" = [] ∨ get form "HashInfo" = []
  · refine iff_of_true ⟨Or.inr ⟨_, read_empty hempty⟩, ?_⟩ (or_assoc.mp (Or.inl hempty))
    intro form' hsame
    rw [read_empty hempty, read_empty (by rw [hsame.1, hsame.2]; exact hempty)]
  · obtain ⟨he, hh⟩ := not_or.mp hempty
    rw [or_iff_right he, or_iff_right hh]
    refine ⟨?_, fun hl => hl.sealedOnly he hh⟩
    rintro ⟨hends, hsame⟩
    have hraised : ∀ r, ¬ isEnvelopeError r → readNotification pf form key iv ≠ .error r := by
      intro r hr heq
      rcases hends with ⟨n, hn⟩ | ⟨message, hm⟩
      · rw [heq] at hn
        cases hn
      · rw [heq] at hm
        cases hm
        exact hr ⟨message, rfl⟩
    rcases @hashInfo_cases _ pf key iv (get form "EncryptInfo") with ⟨data, hdata, hhash⟩ | ⟨-, hhash⟩
    · have hascii : ascii (upper pf (strip (get form "HashInfo"))) = true := by
        by_contra hna
        rw [Bool.not_eq_true] at hna
        refine hraised .typeError (by rintro ⟨m, hm⟩; cases hm) ?_
        rw [read_eq he hh, unseal_not_ascii hhash hna]
        rfl
      refine ⟨Option.isSome_iff_exists.mpr ⟨data, hdata⟩, hascii, fun payload hgood hp => ?_⟩
      have hunseal : unsealFields pf (get form "EncryptInfo") (get form "HashInfo") key iv =
          openEnvelope pf (get form "EncryptInfo") key iv := by
        rw [hhash, Except.ok.injEq] at hgood
        rw [unseal_compared hhash hascii, if_neg (not_not.mpr hgood)]
      cases ht : decode payload with
      | none =>
        -- sealed bytes that are no text raise an error of their own
        refine absurd ?_ (hraised .unicodeDecodeError (by rintro ⟨m, hm⟩; cases hm))
        rw [read_eq he hh, hunseal, open_payload hp, ht]
        rfl
      | some text =>
        refine ⟨text, ht, ?_⟩
        by_contra hno
        obtain ⟨hs, ha⟩ := not_or.mp hno
        rw [Option.not_isSome_iff_eq_none] at hs
        obtain ⟨amount, ha⟩ := Option.ne_none_iff_exists'.mp ha
        -- without a sealed status, the posted one is the notification's
        obtain ⟨henv, hstatus⟩ := reposted_get form (0 :: get form "Status")
        have heq := hsame _ henv
        rw [read_eq he hh, read_eq (henv.1 ▸ he) (henv.2 ▸ hh), henv.1, henv.2, hstatus, hunseal,
          open_payload hp, ht] at heq
        have hposted := notify_differs hs ha heq
        exact absurd (congrArg List.length hposted) (by simp)
    · exfalso
      refine hraised .unicodeEncodeError (by rintro ⟨m, hm⟩; cases hm) ?_
      rw [read_eq he hh, unseal_not_encoded hhash]
      rfl

/-- A hash with an accent in it. -/
def accented : Fields := [(lit "EncryptInfo", lit "00"), (lit "HashInfo", lit "é")]

theorem accented_hash_raises :
    ¬ ∀ (pf : Platform Nat) (key iv : Str) (form : Fields), SealedOnly pf key iv form := by
  intro h
  rcases (sealedOnly_iff _ _ _ _).mp (h clearPlatform sampleKey sampleIv accented) with he | hh | hl
  · exact absurd he (by decide +kernel)
  · exact absurd hh (by decide +kernel)
  · exact absurd hl.ascii (by decide +kernel)

end Autora.Payments
