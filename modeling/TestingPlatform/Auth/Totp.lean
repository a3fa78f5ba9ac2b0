import TestingPlatform.Core.Basic

/-!
# Codes, hashes and ciphertexts

`domains/auth/totp.py`, and what the auth domain takes from the crypto libraries: authenticated encryption,
argon2, RFC 6238 codes and SHA-256 are parameters with the laws the code relies on.
-/

namespace TestingPlatform.Auth

abbrev Bytes := List UInt8

/-- The encoding of a text; that of an ASCII text is its ASCII encoding. -/
def encode (text : String) : Bytes := text.toUTF8.data.toList

theorem encode_inj {a b : String} : encode a = encode b ↔ a = b := by
  rw [encode, encode, Array.toList_inj, ByteArray.ext_iff.symm]
  exact String.toByteArray_inj

def isAscii (text : String) : Bool := text.toList.all fun c => c.toNat < 128

/-- The purpose a ciphertext is bound to. -/
inductive Aad where
  | credential | mfaSecret
  deriving DecidableEq, Repr

structure Primitives where
  /-- `str.lower` on an address. -/
  lower : String → String
  /-- `lower` of the database, by which the lookup and the unique index compare addresses. -/
  sqlLower : String → String
  sha256 : Bytes → Bytes
  /-- `wrap_key` under the master key with the nonce it draws, and `unwrap_key` of a wrapped key and its nonce. -/
  wrapKey : (nonce : Bytes) → (key : Bytes) → Bytes
  unwrapKey : (ciphertext : Bytes) → (nonce : Bytes) → Option Bytes
  /-- `encrypt` with the nonce it draws, and `decrypt`; `none` is a `DecryptionError`. -/
  encrypt : (nonce : Bytes) → (key : Bytes) → Aad → (plaintext : Bytes) → Bytes
  decrypt : (blob : Bytes) → (key : Bytes) → Aad → Option Bytes
  /-- The encoded argon2 hash with the salt it draws. -/
  hash : (salt : Bytes) → (password : String) → Bytes
  /-- Whether the password is the hashed one; `none` for a text that is no hash. -/
  verify : (stored : Bytes) → (password : String) → Option Bool
  checkNeedsRehash : Bytes → Bool
  /-- The code that an authenticator with this seed shows in a time step. -/
  generate : (secret : Bytes) → (step : Int) → String
  unwrapKey_wrapKey : ∀ nonce key, unwrapKey (wrapKey nonce key) nonce = some key
  decrypt_encrypt : ∀ nonce key aad plaintext, decrypt (encrypt nonce key aad plaintext) key aad = some plaintext
  verify_hash : ∀ salt password other, verify (hash salt password) other = some (decide (other = password))

def recoveryCodeCount : Nat := 10

/-- What `generate_recovery_codes` draws. -/
structure RecoveryCodes where
  codes : List String
  length_eq : codes.length = recoveryCodeCount

def stepAt (instant : Time) : Int := instant.tdiv (Time.seconds 1) / 30

/-- `str.lower` on one character, encoded as ASCII with `errors="replace"`. Two characters outside ASCII have
ASCII in their lowercase form. -/
def lowerAscii (c : Char) : Bytes :=
  if 'A' ≤ c ∧ c ≤ 'Z' then [UInt8.ofNat (c.toNat + 32)]
  else if c.toNat < 128 then [UInt8.ofNat c.toNat]
  else if c.toNat = 0x212a then [107]
  else if c.toNat = 0x130 then [105, 63]
  else [63]

/-- A recovery code without its separators and its case. -/
def normalizeRecoveryCode (code : String) : Bytes :=
  (code.toList.filter fun c => c ≠ '-' ∧ c ≠ ' ').flatMap lowerAscii

namespace Primitives
variable (P : Primitives)

def hashRecoveryCode (code : String) : Bytes := P.sha256 (normalizeRecoveryCode code)

def hashSessionToken (token : String) : Bytes := P.sha256 (encode token)

/-- `matching_step`: the first step around `atStep` whose code is `code`. -/
def matchingStep (secret : Bytes) (code : String) (atStep : Int) : Option Int :=
  [atStep - 1, atStep, atStep + 1].find? fun step => P.generate secret step = code

/-! ### An instance -/

/-- The test seed of RFC 6238, and its codes in the first five minutes of the epoch. -/
def rfcSecret : Bytes := encode "12345678901234567890"

def rfcCodes : List String :=
  ["755224", "287082", "359152", "969429", "338314", "254676", "287922", "162583", "399871", "520489"]

/-- Primitives that hide nothing; of the codes only those of the test seed. -/
def plain : Primitives where
  lower := id
  sqlLower := id
  sha256 := id
  wrapKey _ key := key
  unwrapKey kek _ := some kek
  encrypt _ _ _ plaintext := plaintext
  decrypt blob _ _ := some blob
  hash _ password := encode password
  verify stored password := some (decide (encode password = stored))
  checkNeedsRehash _ := false
  generate secret step := if secret = rfcSecret then (rfcCodes[step.toNat]?).getD "" else ""
  unwrapKey_wrapKey _ _ := rfl
  decrypt_encrypt _ _ _ _ := rfl
  verify_hash _ _ _ := by simp only [encode_inj]

end Primitives

end TestingPlatform.Auth
