/-
From a Pub/Sub message to an action (`consumer/pubsub.rs`,
`consumer/message_decoder.rs`, `gcloud/kms.rs`): an optional envelope
decryption, then one of two decoders.

The libraries and the services are parameters that give a value or an error.
What is left to panic is the code's own slicing of an encrypted body by the
length the body itself begins with.
-/
import Osprey.Engine.Basic
import Osprey.Lib.Dict

namespace Osprey.MessageDecoder

abbrev Bytes := List UInt8

/-- How a function ends that gives no value. -/
inductive Fault
  | err (message : String)
  | panic
  deriving DecidableEq, Repr

/-- `?` on what a library gives. -/
def lift {α : Type} : Except String α → Except Fault α
  | .ok a => .ok a
  | .error message => .error (.err message)

/-- `bytes[..n]` and `bytes[n..]`. -/
def splitAt (bytes : Bytes) (n : Nat) : Except Fault (Bytes × Bytes) :=
  if n ≤ bytes.length then .ok (bytes.splitAt n) else .error .panic

structure ProtoAction where
  id : Nat
  /-- The name of the data's variant. -/
  data : Option String

structure MsgpackAction (Json : Type) where
  id : Option String
  name : String
  data : Json
  secretData : Option Json

/-- What the code calls. `aesGcm` makes a decryption of payload and associated data from a key. -/
structure Libraries (Json : Type) where
  base64Decode : Bytes → Except String Bytes
  kmsDecrypt : String → Bytes → Except String Bytes
  decodeKey : Bytes → Except String Bytes
  aesGcm : Bytes → Except String (Bytes → Bytes → Except String Bytes)
  decodeProto : Bytes → Except String ProtoAction
  toSnake : String → String
  msgpackString : Bytes → Except String String
  fromJson : String → Except String (MsgpackAction Json)
  toVec : Json → Except String Bytes
  parseU64 : String → Except String Nat
  generateId : Except String Nat

structure AesGcmEnvelope where
  keyUri : String
  associatedData : Bytes
  base64Encoded : Bool

inductive ActionData
  | proto (bytes : Bytes)
  | json (bytes : Bytes)

structure OspreyCoordinatorAction where
  ackId : Nat
  actionId : Nat
  actionName : String
  actionData : ActionData
  secretData : Option Bytes
  timestamp : Nat

variable {Json : Type} (lib : Libraries Json)

/-- `u32::from_be_bytes`. -/
def fromBeBytes (bytes : Bytes) : Nat := bytes.foldl (fun n byte => 256 * n + byte.toNat) 0

/-- What the two ciphertexts are decrypted to. -/
def AesGcmEnvelope.open (e : AesGcmEnvelope) (encryptedDek payload : Bytes) : Except String Bytes := do
  let plaintext ← lib.kmsDecrypt e.keyUri encryptedDek
  let key ← lib.decodeKey plaintext
  let aesGcm ← (lib.aesGcm key).mapError ("failed initializing AesGcm key object: " ++ ·)
  (aesGcm payload e.associatedData).mapError ("failed decrypting payload: " ++ ·)

def AesGcmEnvelope.decode (e : AesGcmEnvelope) (ciphertext : Bytes) : Except String Bytes :=
  if e.base64Encoded then lib.base64Decode ciphertext else .ok ciphertext

def AesGcmEnvelope.decrypt (e : AesGcmEnvelope) (ciphertext : Bytes) : Except Fault Bytes := do
  let ciphertext ← lift (e.decode lib ciphertext)
  let (length, ciphertext) ← splitAt ciphertext 4
  let (encryptedDek, payload) ← splitAt ciphertext (fromBeBytes length)
  lift (e.open lib encryptedDek payload)

def Fault.decryptionFailed : Fault → Fault
  | .err message => .err ("message decryption failed: " ++ message)
  | .panic => .panic

def decryptPubsubMessage (e : AesGcmEnvelope) (messageData : Bytes) : Except Fault Bytes :=
  (e.decrypt lib messageData).mapError Fault.decryptionFailed

def decodeProtoMessage (messageData : Bytes) (ackId timestamp : Nat) : Except String OspreyCoordinatorAction := do
  let action ← lib.decodeProto messageData
  let actionId ← if action.id = 0 then lib.generateId else .ok action.id
  let name ← action.data.elim (.error "missing action data") .ok
  return ⟨ackId, actionId, lib.toSnake name, .proto messageData, none, timestamp⟩

def decodeMsgpackJsonMessage (messageData : Bytes) (ackId timestamp : Nat) :
    Except String OspreyCoordinatorAction := do
  let decoded ← lib.msgpackString messageData
  let action ← lib.fromJson decoded
  let data ← lib.toVec action.data
  let secretData ← action.secretData.mapM lib.toVec
  let actionId ← action.id.elim lib.generateId lib.parseU64
  return ⟨ackId, actionId, action.name, .json data, secretData, timestamp⟩

def createActionFromPubsubMessage (e : AesGcmEnvelope) (messageData : Bytes) (attributes : Lib.Dict String String)
    (ackId timestamp : Nat) : Except Fault OspreyCoordinatorAction := do
  let messageData ← if attributes.get? "encrypted" = some "true" then decryptPubsubMessage lib e messageData
    else .ok messageData
  if attributes.get? "encoding" = some "proto" then lift (decodeProtoMessage lib messageData ackId timestamp)
  else lift (decodeMsgpackJsonMessage lib messageData ackId timestamp)

/-! ## Panics -/

/-- The body is a length of four bytes, that many bytes of encrypted key, and a payload. -/
def Cut (body encryptedDek payload : Bytes) : Prop :=
  ∃ length : Bytes, length.length = 4 ∧ fromBeBytes length = encryptedDek.length ∧
    body = length ++ (encryptedDek ++ payload)

variable {lib} {e : AesGcmEnvelope} {messageData body encryptedDek payload : Bytes}

theorem lift_ok {α : Type} (a : α) : lift (.ok a) = .ok a := rfl

theorem lift_ne_panic {α : Type} (x : Except String α) : lift x ≠ .error .panic := by
  cases x <;> simp [lift]

theorem splitAt_append (a b : Bytes) : splitAt (a ++ b) a.length = .ok (a, b) := by
  simp [splitAt]

theorem splitAt_of_lt {n} (h : body.length < n) : splitAt body n = .error .panic := if_neg (by omega)

theorem exists_append_of_le {n} (h : n ≤ body.length) : ∃ a b : Bytes, a.length = n ∧ body = a ++ b :=
  ⟨body.take n, body.drop n, List.length_take_of_le h, (List.take_append_drop n body).symm⟩

theorem decrypt_of_error {message} (h : e.decode lib messageData = .error message) :
    e.decrypt lib messageData = .error (.err message) := by
  simp [AesGcmEnvelope.decrypt, h, lift]

theorem decrypt_of_cut (hbody : e.decode lib messageData = .ok body) (hcut : Cut body encryptedDek payload) :
    e.decrypt lib messageData = lift (e.open lib encryptedDek payload) := by
  obtain ⟨length, hlength, hn, rfl⟩ := hcut
  have hsplit : splitAt (length ++ (encryptedDek ++ payload)) 4 = .ok (length, encryptedDek ++ payload) :=
    hlength ▸ splitAt_append ..
  simp [AesGcmEnvelope.decrypt, hbody, lift, hsplit, hn, splitAt_append]

theorem decrypt_of_not_cut (hbody : e.decode lib messageData = .ok body)
    (hcut : ∀ encryptedDek payload, ¬ Cut body encryptedDek payload) :
    e.decrypt lib messageData = .error .panic := by
  simp only [AesGcmEnvelope.decrypt, hbody, lift, ok_bind]
  rcases Nat.lt_or_ge body.length 4 with hshort | h4
  · simp [splitAt_of_lt hshort]
  obtain ⟨length, rest, hlength, rfl⟩ := exists_append_of_le h4
  rcases Nat.lt_or_ge rest.length (fromBeBytes length) with hshort | hn
  · simp [← hlength, splitAt_append, splitAt_of_lt hshort]
  · obtain ⟨dek, payload, hdek, rfl⟩ := exists_append_of_le hn
    exact absurd ⟨length, hlength, hdek.symm, rfl⟩ (hcut dek payload)

/-- **Which messages panic.** Exactly the encrypted ones whose body, once its base64 layer is off, is no length, key and
payload. An encrypted message that gives an action is cut that way, and its payload decrypts. -/
theorem message_panics_iff (lib : Libraries Json) (e : AesGcmEnvelope) (messageData : Bytes)
    (attributes : Lib.Dict String String) (ackId timestamp : Nat) :
    (createActionFromPubsubMessage lib e messageData attributes ackId timestamp = .error .panic ↔
      attributes.get? "encrypted" = some "true" ∧ ∃ body, e.decode lib messageData = .ok body ∧
        ∀ encryptedDek payload, ¬ Cut body encryptedDek payload) ∧
    ∀ action, createActionFromPubsubMessage lib e messageData attributes ackId timestamp = .ok action →
      attributes.get? "encrypted" = some "true" →
        ∃ body encryptedDek payload plaintext, e.decode lib messageData = .ok body ∧ Cut body encryptedDek payload ∧
          e.open lib encryptedDek payload = .ok plaintext := by
  have hdecoders : ∀ data, (if attributes.get? "encoding" = some "proto" then
      lift (decodeProtoMessage lib data ackId timestamp)
      else lift (decodeMsgpackJsonMessage lib data ackId timestamp)) ≠ .error .panic := by
    intro data
    split <;> exact lift_ne_panic _
  unfold createActionFromPubsubMessage
  by_cases henc : attributes.get? "encrypted" = some "true"
  · rw [if_pos henc, decryptPubsubMessage]
    cases hbody : e.decode lib messageData with
    | error message =>
      simp [decrypt_of_error hbody, Except.mapError, Fault.decryptionFailed]
    | ok body =>
      by_cases hcut : ∃ encryptedDek payload, Cut body encryptedDek payload
      · obtain ⟨encryptedDek, payload, hcut⟩ := hcut
        have hall : ¬ ∀ encryptedDek payload, ¬ Cut body encryptedDek payload := fun h => h _ _ hcut
        cases hopen : e.open lib encryptedDek payload with
        | error message =>
          simp [decrypt_of_cut hbody hcut, hopen, lift, hall, Except.mapError, Fault.decryptionFailed]
        | ok plaintext =>
          simp only [decrypt_of_cut hbody hcut, hopen, lift_ok, Except.mapError, ok_bind]
          exact ⟨by simp [hdecoders, hall], fun _ _ _ => ⟨body, encryptedDek, payload, plaintext, rfl, hcut, hopen⟩⟩
      · simp only [not_exists] at hcut
        simp [decrypt_of_not_cut hbody hcut, henc, hcut, Except.mapError, Fault.decryptionFailed]
  · simpa [henc] using hdecoders messageData

/-- A body of less than four bytes. -/
theorem short_body_panics : ([0, 0] : Bytes).length < 4 ∧ ∀ lib : Libraries Unit,
    createActionFromPubsubMessage lib ⟨"", [], false⟩ [0, 0] (Lib.Dict.empty.set "encrypted" "true") 0 0 =
      .error .panic :=
  ⟨by decide, fun _ => rfl⟩

end Osprey.MessageDecoder
