import Mathlib.Algebra.Group.Nat.Defs
import YasinCore.Library.CounterMode
import YasinCore.Library.Utf8

namespace YasinCore.Security

open YasinCore.Library

-- What the protector uses: the two hash functions, of which only the length of the result is known,
-- and the codecs, which undo each other. A codec that fails gives the message of its exception.
structure Primitives where
  sha256 : Bytes → Block 32
  hmacSha256 : Bytes → Bytes → Block 32
  encode : Str → Except String Bytes
  decode : Bytes → Except String Str
  b64encode : Bytes → Bytes
  b64decode : Bytes → Except String Bytes
  decode_encode : ∀ {s bytes}, encode s = .ok bytes → decode bytes = .ok s
  encode_decode : ∀ {bytes s}, decode bytes = .ok s → encode s = .ok bytes
  b64decode_b64encode : ∀ bytes, b64decode (b64encode bytes) = .ok bytes
  decode_b64encode : ∀ bytes, ∃ text, decode (b64encode bytes) = .ok text

-- A SecurityError, or any other exception.
inductive ProtectionError
  | security (message : String)
  | other (message : String)

def lifted {α : Type} : Except String α → Except ProtectionError α
  | .ok value => .ok value
  | .error message => .error (.other message)

structure SensitiveDataProtector where
  primitives : Primitives
  masterKey : Bytes

-- counter.to_bytes(4, "big")
def bigEndian (counter : Nat) : Bytes :=
  [.ofNat (counter / 2 ^ 24), .ofNat (counter / 2 ^ 16), .ofNat (counter / 2 ^ 8), .ofNat counter]

def toBytes (counter : Nat) : Except String Bytes :=
  if counter < 2 ^ 32 then .ok (bigEndian counter) else .error "int too big to convert"

def encrypted : Str := .ofString "ENC:"

namespace SensitiveDataProtector

variable (p : SensitiveDataProtector)

-- The loop of _keystream, from a counter and an output on.
def expand (salt : Bytes) (length counter : Nat) (output : Bytes) : Except ProtectionError Bytes :=
  if output.length < length then
    match toBytes counter with
    | .ok bytes =>
        expand salt length (counter + 1)
          (output ++ (p.primitives.sha256 (p.masterKey ++ salt ++ bytes)).val)
    | .error message => .error (.other message)
  else .ok (output.take length)
termination_by length - output.length
decreasing_by
  have hblock := (p.primitives.sha256 (p.masterKey ++ salt ++ bytes)).property
  rw [List.length_append, hblock]
  omega

def keystream (salt : Bytes) (length : Nat) : Except ProtectionError Bytes := p.expand salt length 0 []

-- The salt is the one that os.urandom gives.
def encrypt (salt : Bytes) (data : Str) : Except ProtectionError Str :=
  if data = [] then .ok []
  else do
    let dataBytes ← lifted (p.primitives.encode data)
    let keystream ← p.keystream salt dataBytes.length
    let ciphertext := CounterMode.xor dataBytes keystream
    let mac := (p.primitives.hmacSha256 p.masterKey (salt ++ ciphertext)).val
    let payload := salt ++ mac ++ ciphertext
    let encoded ← lifted (p.primitives.decode (p.primitives.b64encode payload))
    return encrypted ++ encoded

-- What is tried.
def openPayload (encodedPayload : Str) : Except ProtectionError Str := do
  let raw ← lifted (p.primitives.encode encodedPayload)
  let payload ← lifted (p.primitives.b64decode raw)
  if payload.length < 16 + 32 then
    throw (.security "Malformed encrypted payload (too short).")
  let salt := payload.take 16
  let mac := (payload.take 48).drop 16
  let ciphertext := payload.drop 48
  let expectedMac := (p.primitives.hmacSha256 p.masterKey (salt ++ ciphertext)).val
  if mac ≠ expectedMac then
    throw (.security ("Integrity check failed: data may have been tampered with, " ++
      "or it was encrypted with a different master key."))
  let keystream ← p.keystream salt ciphertext.length
  lifted (p.primitives.decode (CounterMode.xor ciphertext keystream))

def decrypt (encryptedData : Str) : Except ProtectionError Str :=
  if encryptedData = [] then .ok []
  else if ¬encrypted <+: encryptedData then
    .error (.security "Data is not encrypted or format is invalid (missing 'ENC:' prefix).")
  else
    match p.openPayload (encryptedData.drop 4) with
    | .ok data => .ok data
    | .error (.security message) => .error (.security message)
    | .error (.other message) => .error (.security ("Failed to decrypt sensitive data: " ++ message))

-- The blocks that the keystream is made of.
def block (salt : Bytes) (counter : Nat) : Block 32 :=
  p.primitives.sha256 (p.masterKey ++ salt ++ bigEndian counter)

-- The loop makes the beginning of one stream, as far as four bytes can count the blocks.
theorem expand_stream (salt : Bytes) (length : Nat) {counter : Nat} (h : counter ≤ 2 ^ 32) :
    p.expand salt length counter (CounterMode.stream (p.block salt) (32 * counter)) =
      if length ≤ 32 * 2 ^ 32 then .ok (CounterMode.stream (p.block salt) length)
      else .error (.other "int too big to convert") := by
  induction hm : length - 32 * counter using Nat.strong_induction_on generalizing counter with
  | _ m ih =>
      rw [expand, CounterMode.length_stream]
      by_cases hmore : 32 * counter < length
      · rw [if_pos hmore, toBytes]
        by_cases hcounter : counter < 2 ^ 32
        · rw [if_pos hcounter]
          have hblock := @CounterMode.stream_block 32 (p.block salt) (by decide) counter
          have hrest := @ih (length - 32 * (counter + 1)) (by omega) (counter + 1) hcounter rfl
          rw [← hblock] at hrest
          exact hrest
        · have hlong : ¬length ≤ 32 * 2 ^ 32 := by omega
          rw [if_neg hcounter, if_neg hlong]
      · have hshort : length ≤ 32 * 2 ^ 32 := by omega
        rw [if_neg hmore, if_pos hshort, CounterMode.take_stream (by omega)]

theorem keystream_eq (salt : Bytes) (length : Nat) : p.keystream salt length =
    if length ≤ 32 * 2 ^ 32 then .ok (CounterMode.stream (p.block salt) length)
    else .error (.other "int too big to convert") :=
  p.expand_stream salt length (Nat.zero_le _)

-- What is opened: a text that is decoded to a salt, a tag that the key makes of the rest, and a
-- ciphertext, and the data that the keystream uncovers.
def Opens (encryptedData data : Str) : Prop :=
  ∃ (text : Str) (raw salt tag ciphertext : Bytes), encryptedData = encrypted ++ text ∧
    p.primitives.encode text = .ok raw ∧ p.primitives.b64decode raw = .ok (salt ++ tag ++ ciphertext) ∧
    salt.length = 16 ∧ tag.length = 32 ∧
    tag = (p.primitives.hmacSha256 p.masterKey (salt ++ ciphertext)).val ∧
    p.primitives.decode (CounterMode.xor ciphertext
      (CounterMode.stream (p.block salt) ciphertext.length)) = .ok data

variable {p}

theorem openPayload_eq {text : Str} {raw salt tag ciphertext : Bytes}
    (hraw : p.primitives.encode text = .ok raw)
    (hpayload : p.primitives.b64decode raw = .ok (salt ++ tag ++ ciphertext)) (hsalt : salt.length = 16)
    (htag : tag.length = 32) : p.openPayload text =
      if tag = (p.primitives.hmacSha256 p.masterKey (salt ++ ciphertext)).val then
        p.keystream salt ciphertext.length >>= fun stream =>
          lifted (p.primitives.decode (CounterMode.xor ciphertext stream))
      else .error (.security ("Integrity check failed: data may have been tampered with, " ++
        "or it was encrypted with a different master key.")) := by
  have htake : (salt ++ tag ++ ciphertext).take 16 = salt := by
    rw [List.append_assoc, ← hsalt, List.take_left]
  have hlength : (salt ++ tag).length = 48 := by rw [List.length_append, hsalt, htag]
  have hmac : ((salt ++ tag ++ ciphertext).take 48).drop 16 = tag := by
    rw [← hlength, List.take_left, ← hsalt, List.drop_left]
  have hdrop : (salt ++ tag ++ ciphertext).drop 48 = ciphertext := by
    rw [← hlength, List.drop_left]
  have hlong : ¬(salt ++ tag ++ ciphertext).length < 16 + 32 := by
    rw [List.length_append, hlength]
    omega
  have hdecoded : lifted (p.primitives.b64decode raw) = .ok (salt ++ tag ++ ciphertext) := by
    rw [hpayload]
    rfl
  have hencoded : lifted (p.primitives.encode text) = .ok raw := by
    rw [hraw]
    rfl
  simp only [openPayload, hencoded, hdecoded, bind, Except.bind, if_neg hlong, htake, hmac, hdrop,
    ne_eq, ite_not]
  split
  · rfl
  · rfl

theorem lifted_ok_iff {α : Type} {result : Except String α} {value : α} :
    lifted result = .ok value ↔ result = .ok value := by
  cases result with
  | ok found =>
      unfold lifted
      rw [Except.ok.injEq, Except.ok.injEq]
  | error message => exact ⟨nofun, nofun⟩

theorem opens_of_openPayload {text data : Str} (h : p.openPayload text = .ok data) :
    p.Opens (encrypted ++ text) data := by
  cases hraw : p.primitives.encode text with
  | error message =>
      rw [openPayload, hraw] at h
      cases h
  | ok raw =>
      cases hpayload : p.primitives.b64decode raw with
      | error message =>
          simp only [openPayload, hraw, hpayload, lifted, bind, Except.bind] at h
          cases h
      | ok payload =>
          by_cases hshort : payload.length < 16 + 32
          · simp only [openPayload, hraw, hpayload, lifted, bind, Except.bind, if_pos hshort] at h
            cases h
          · have hsplit : payload = payload.take 16 ++ (payload.take 48).drop 16 ++ payload.drop 48 := by
              have hfront : (payload.take 48).take 16 = payload.take 16 := by
                rw [List.take_take]
                rfl
              rw [← hfront, List.take_append_drop, List.take_append_drop]
            have hsalt : (payload.take 16).length = 16 := by
              rw [List.length_take]
              omega
            have htag : ((payload.take 48).drop 16).length = 32 := by
              rw [List.length_drop, List.length_take]
              omega
            rw [hsplit] at hpayload
            rw [openPayload_eq hraw hpayload hsalt htag, keystream_eq] at h
            split at h
            · rename_i hmac
              split at h
              · exact ⟨text, raw, _, _, _, rfl, hraw, hpayload, hsalt, htag, hmac, lifted_ok_iff.mp h⟩
              · cases h
            · cases h

-- Nothing but a SecurityError leaves decrypt, and nothing but what was opened.
theorem decrypt_cases {encryptedData : Str} (h : encryptedData ≠ []) :
    (∃ data, p.decrypt encryptedData = .ok data ∧ p.Opens encryptedData data) ∨
      ∃ message, p.decrypt encryptedData = .error (.security message) := by
  unfold decrypt
  rw [if_neg h]
  by_cases hprefix : encrypted <+: encryptedData
  · rw [if_neg (not_not_intro hprefix)]
    obtain ⟨text, rfl⟩ := hprefix
    have hdrop : (encrypted ++ text).drop 4 = text := rfl
    rw [hdrop]
    cases hopen : p.openPayload text with
    | ok data => exact .inl ⟨data, rfl, opens_of_openPayload hopen⟩
    | error e =>
        cases e with
        | security message => exact .inr ⟨message, rfl⟩
        | other message => exact .inr ⟨_, rfl⟩
  · rw [if_pos hprefix]
    exact .inr ⟨_, rfl⟩

-- What is encrypted can be decrypted.
theorem decrypt_encrypt {salt dataBytes : Bytes} {data : Str} (hsalt : salt.length = 16)
    (hdata : p.primitives.encode data = .ok dataBytes) (hlength : dataBytes.length ≤ 32 * 2 ^ 32) :
    ∃ text, p.encrypt salt data = .ok text ∧ p.decrypt text = .ok data := by
  by_cases hempty : data = []
  · refine ⟨[], if_pos hempty, ?_⟩
    rw [hempty]
    rfl
  · let stream := CounterMode.stream (p.block salt) dataBytes.length
    let ciphertext := CounterMode.xor dataBytes stream
    let mac := p.primitives.hmacSha256 p.masterKey (salt ++ ciphertext)
    have hsame : dataBytes.length = stream.length := (CounterMode.length_stream _).symm
    have hcipher : ciphertext.length = dataBytes.length := CounterMode.length_xor hsame
    have hkeystream : p.keystream salt dataBytes.length = .ok stream := by rw [keystream_eq, if_pos hlength]
    obtain ⟨text, htext⟩ := p.primitives.decode_b64encode (salt ++ mac.val ++ ciphertext)
    refine ⟨encrypted ++ text, ?_, ?_⟩
    · have hencoded : lifted (p.primitives.encode data) = .ok dataBytes := lifted_ok_iff.mpr hdata
      have hdecoded := lifted_ok_iff.mpr htext
      unfold encrypt
      rw [if_neg hempty, hencoded]
      change (p.keystream salt dataBytes.length >>= _) = _
      rw [hkeystream]
      change (lifted (p.primitives.decode (p.primitives.b64encode (salt ++ mac.val ++ ciphertext))) >>= _) = _
      rw [hdecoded]
      rfl
    · have hopen : p.openPayload text = .ok data := by
        rw [openPayload_eq (p.primitives.encode_decode htext) (p.primitives.b64decode_b64encode _) hsalt
          mac.property, if_pos rfl, hcipher, hkeystream]
        change lifted (p.primitives.decode (CounterMode.xor ciphertext stream)) = _
        rw [CounterMode.xor_xor hsame]
        exact lifted_ok_iff.mpr (p.primitives.decode_encode hdata)
      have hne : encrypted ++ text ≠ [] := List.cons_ne_nil _ _
      have hdrop : (encrypted ++ text).drop 4 = text := rfl
      unfold decrypt
      rw [if_neg hne, if_neg (not_not_intro (List.prefix_append encrypted text)), hdrop, hopen]

end SensitiveDataProtector

-- What is encrypted is decrypted again, and everything else is refused with a SecurityError.
theorem encryption_sound (p : SensitiveDataProtector) :
    (∀ (salt dataBytes : Bytes) (data : Str), salt.length = 16 →
      p.primitives.encode data = .ok dataBytes → dataBytes.length ≤ 32 * 2 ^ 32 →
        ∃ text, p.encrypt salt data = .ok text ∧ p.decrypt text = .ok data) ∧
      ∀ encryptedData : Str, encryptedData ≠ [] →
        (∃ data, p.decrypt encryptedData = .ok data ∧ p.Opens encryptedData data) ∨
          ∃ message, p.decrypt encryptedData = .error (.security message) :=
  ⟨fun _ _ _ => SensitiveDataProtector.decrypt_encrypt,
    fun _ => SensitiveDataProtector.decrypt_cases⟩

section Samples

def orMessage {α : Type} (message : String) : Option α → Except String α
  | some value => .ok value
  | none => .error message

theorem orMessage_ok_iff {α : Type} {message : String} {result : Option α} {value : α} :
    orMessage message result = .ok value ↔ result = some value := by
  cases result with
  | some found =>
      unfold orMessage
      rw [Except.ok.injEq, Option.some.injEq]
  | none => exact ⟨nofun, nofun⟩

-- The codecs of the language, with any hash functions.
def standardPrimitives (sha256 : Bytes → Block 32) (hmacSha256 : Bytes → Bytes → Block 32) :
    Primitives where
  sha256 := sha256
  hmacSha256 := hmacSha256
  encode s := orMessage "surrogates not allowed" (Utf8.encode s)
  decode bytes := orMessage "invalid start byte" (Utf8.decode bytes)
  b64encode := Base64.encode
  b64decode bytes := orMessage "Incorrect padding" (Base64.decode bytes)
  decode_encode h := orMessage_ok_iff.mpr (Utf8.encode_eq_some_iff.mp (orMessage_ok_iff.mp h))
  encode_decode h := orMessage_ok_iff.mpr (Utf8.encode_eq_some_iff.mpr (orMessage_ok_iff.mp h))
  b64decode_b64encode bytes := orMessage_ok_iff.mpr (Base64.decode_encode bytes)
  decode_b64encode bytes :=
    ⟨_, orMessage_ok_iff.mpr (Utf8.decode_ascii (Base64.encode_ascii bytes))⟩

-- A hash function that only counts.
def lengthHash (bytes : Bytes) : Block 32 := ⟨.replicate 32 (.ofNat bytes.length), List.length_replicate⟩

def sampleProtector : SensitiveDataProtector where
  primitives := standardPrimitives lengthHash fun key data => lengthHash (key ++ data)
  masterKey := [1, 2, 3]

theorem encryption_sound_sample :
    (∃ text, sampleProtector.encrypt (.replicate 16 7) (.ofString "token") = .ok text ∧
      sampleProtector.decrypt text = .ok (.ofString "token")) ∧
      ((∃ data, sampleProtector.decrypt (.ofString "ENC:AAAA") = .ok data ∧
        sampleProtector.Opens (.ofString "ENC:AAAA") data) ∨
          ∃ message, sampleProtector.decrypt (.ofString "ENC:AAAA") = .error (.security message)) :=
  ⟨(encryption_sound sampleProtector).1 (.replicate 16 7) [116, 111, 107, 101, 110] (.ofString "token") rfl rfl
      (by decide),
    (encryption_sound sampleProtector).2 (.ofString "ENC:AAAA") (List.cons_ne_nil _ _)⟩

end Samples

end YasinCore.Security
