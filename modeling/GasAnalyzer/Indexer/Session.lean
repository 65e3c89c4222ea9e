import GasAnalyzer.Library.Base64
import GasAnalyzer.Indexer.Types

/-!
# Session tokens

`AuthState::issue_token` and `AuthState::verify_token`. A token is `username|expires|hmac`, base64url-encoded; the
username may itself hold separators, so the text is split from the right. HMAC-SHA256 and the base64 codec come from
other crates and are parameters.
-/

namespace GasAnalyzer.Indexer

open Text

def sessionTtlSecs : Int := 7 * 24 * 60 * 60

structure UserEntry where
  username : String
  bcryptHash : String
  deriving DecidableEq

structure AuthState where
  users : List UserEntry
  secret : List UInt8

/-- `Hmac<Sha256>` and `URL_SAFE_NO_PAD`. -/
structure Codecs where
  hmac : List UInt8 → List UInt8 → Vector UInt8 32
  encode : List UInt8 → Chars
  decode : Chars → Option (List UInt8)

/-- Decoding gives back what was encoded. -/
def Codecs.RoundTrips (codecs : Codecs) : Prop := ∀ bytes, codecs.decode (codecs.encode bytes) = some bytes

/-- `str::as_bytes` -/
def asBytes (s : Chars) : List UInt8 := (String.ofList s).toUTF8.data.toList

/-- `std::str::from_utf8` -/
def fromUtf8 (bytes : List UInt8) : Option Chars := (String.fromUTF8? ⟨bytes.toArray⟩).map String.toList

theorem fromUtf8_asBytes (s : Chars) : fromUtf8 (asBytes s) = some s := by
  have bytes : (⟨(asBytes s).toArray⟩ : ByteArray) = (String.ofList s).toByteArray := by
    rw [asBytes, Array.toArray_toList, String.toUTF8_eq_toByteArray]
  have valid : (String.ofList s).toByteArray.IsValidUTF8 := (String.ofList s).isValidUTF8
  rw [fromUtf8, bytes, String.fromUTF8?, dif_pos valid]
  exact congrArg some String.toList_ofList

namespace AuthState

variable (auth : AuthState) (codecs : Codecs)

def sign (payload : Chars) : Chars := encodeHex (codecs.hmac auth.secret (asBytes payload)).toList

/-- `format!("{username}|{expires}")` -/
def payload (username : String) (expires : Int) : Chars := username.toList ++ '|' :: showInt expires

def issueToken (username : String) (now : Timestamp) : Chars :=
  let expires := now.seconds + sessionTtlSecs
  let payload := payload username expires
  codecs.encode (asBytes (payload ++ '|' :: auth.sign codecs payload))

/-- The payload and the signature a token carries. -/
def splitToken (token : Chars) : Option (Chars × Chars) := do
  let raw ← codecs.decode token
  let raw ← fromUtf8 raw
  rsplitOnce '|' raw

def verifyToken (token : Chars) (now : Timestamp) : Option String := do
  let (payload, sig) ← splitToken codecs token
  let expected := auth.sign codecs payload
  if expected ≠ sig then none else
  let (username, expires) ← rsplitOnce '|' payload
  let expires ← parseInt64 expires
  if now.seconds > expires then none else
  if auth.users.any (fun user => user.username = String.ofList username) then some (String.ofList username) else none

/-- `username` is on the allowlist. -/
def Allows (username : String) : Prop := ∃ user ∈ auth.users, user.username = username

instance (username : String) : Decidable (auth.Allows username) :=
  inferInstanceAs (Decidable (∃ user ∈ auth.users, user.username = username))

/-- The payloads `issue_token` signed. -/
def signedPayloads (issued : List (String × Timestamp)) : List Chars :=
  issued.map fun (username, now) => payload username (now.seconds + sessionTtlSecs)

/-- The MAC is ideal for the token: a payload it carries under the payload's own signature is one that was signed. -/
def Unforged (issued : List (String × Timestamp)) (token : Chars) : Prop :=
  ∀ payload sig, splitToken codecs token = some (payload, sig) → sig = auth.sign codecs payload →
    payload ∈ signedPayloads issued

/-! ### Both splits undo the joins -/

variable {auth codecs}

theorem sign_plain (payload : Chars) : '|' ∉ auth.sign codecs payload := by
  apply not_mem_encodeHex
  decide

theorem showInt_plain (expires : Int) : '|' ∉ showInt expires := not_mem_showInt (by decide) (by decide) expires

theorem payload_split (username : String) (expires : Int) :
    rsplitOnce '|' (payload username expires) = some (username.toList, showInt expires) :=
  rsplitOnce_join _ (showInt_plain expires)

theorem splitToken_issueToken (round : codecs.RoundTrips) (username : String) (now : Timestamp) :
    splitToken codecs (auth.issueToken codecs username now) =
      some (payload username (now.seconds + sessionTtlSecs),
        auth.sign codecs (payload username (now.seconds + sessionTtlSecs))) := by
  simp only [splitToken, issueToken, Option.bind_eq_bind]
  rw [round _, Option.bind_some, fromUtf8_asBytes, Option.bind_some]
  exact rsplitOnce_join _ (sign_plain _)

/-- The expiry is a number `i64` holds. -/
theorem parseInt64_expiry (now : Timestamp) :
    parseInt64 (showInt (now.seconds + sessionTtlSecs)) = some (now.seconds + sessionTtlSecs) := by
  have low := now.low
  have high := now.high
  apply parseInt64_showInt <;> simp only [sessionTtlSecs] <;> omega

theorem any_allows (username : String) :
    auth.users.any (fun user => user.username = username) = true ↔ auth.Allows username := by
  rw [List.any_eq_true]
  simp only [decide_eq_true_eq, Allows]

/-- What `verify_token` answers once the signature is right. -/
theorem verifyToken_signed {token : Chars} {username : String} {issued : Timestamp}
    (split : splitToken codecs token = some (payload username (issued.seconds + sessionTtlSecs),
      auth.sign codecs (payload username (issued.seconds + sessionTtlSecs)))) (now : Timestamp) :
    auth.verifyToken codecs token now =
      if now.seconds ≤ issued.seconds + sessionTtlSecs ∧ auth.Allows username then some username else none := by
  simp only [verifyToken, split, Option.bind_eq_bind, Option.bind_some, ne_eq, not_true_eq_false, if_false,
    payload_split, parseInt64_expiry, String.ofList_toList, any_allows, gt_iff_lt]
  by_cases late : issued.seconds + sessionTtlSecs < now.seconds
  · rw [if_pos late, if_neg fun both => absurd both.1 (Int.not_le.mpr late)]
  · rw [if_neg late]
    have early := Int.not_lt.mp late
    by_cases allowed : auth.Allows username
    · rw [if_pos allowed, if_pos ⟨early, allowed⟩]
    · rw [if_neg allowed, if_neg fun both => allowed both.2]

/-- An accepted token carries the signature of its payload. -/
theorem verifyToken_some {token : Chars} {now : Timestamp} {username : String}
    (accepted : auth.verifyToken codecs token now = some username) :
    ∃ payload, splitToken codecs token = some (payload, auth.sign codecs payload) := by
  unfold verifyToken at accepted
  cases split : splitToken codecs token with
  | none =>
    rw [split] at accepted
    cases accepted
  | some parts =>
    obtain ⟨payload, sig⟩ := parts
    rw [split] at accepted
    simp only [Option.bind_eq_bind, Option.bind_some] at accepted
    by_cases signed : auth.sign codecs payload = sig
    · exact ⟨payload, by rw [signed]⟩
    · rw [if_pos signed] at accepted
      cases accepted

/-- A token is accepted for the user it was issued to, up to its expiry and while the user is on the allowlist; an
accepted token carries a payload that was issued for the user it is accepted for and has not expired. -/
theorem session_tokens (auth : AuthState) (codecs : Codecs) (round : codecs.RoundTrips) :
    (∀ username issued now,
      auth.verifyToken codecs (auth.issueToken codecs username issued) now =
        if now.seconds ≤ issued.seconds + sessionTtlSecs ∧ auth.Allows username then some username else none) ∧
    ∀ issued token now username, auth.Unforged codecs issued token →
      auth.verifyToken codecs token now = some username →
        ∃ since, (username, since) ∈ issued ∧ now.seconds ≤ since.seconds + sessionTtlSecs ∧ auth.Allows username ∧
          splitToken codecs token = some (payload username (since.seconds + sessionTtlSecs),
            auth.sign codecs (payload username (since.seconds + sessionTtlSecs))) := by
  constructor
  · intro username issued now
    exact verifyToken_signed (splitToken_issueToken round username issued) now
  · intro issued token now username unforged accepted
    obtain ⟨signed, split⟩ := verifyToken_some accepted
    obtain ⟨⟨owner, since⟩, member, same⟩ := List.mem_map.mp (unforged _ _ split rfl)
    dsimp only at same
    rw [← same] at split
    have answer := verifyToken_signed split now
    rw [accepted] at answer
    by_cases both : now.seconds ≤ since.seconds + sessionTtlSecs ∧ auth.Allows owner
    · rw [if_pos both] at answer
      injection answer with named
      subst named
      exact ⟨since, member, both.1, both.2, split⟩
    · rw [if_neg both] at answer
      cases answer

def separatorUser : AuthState where
  users := [⟨"a|b", ""⟩]
  secret := List.replicate 32 0xab

/-- The digest is HMAC-SHA256 of `a|b|604800` under `separatorUser`'s secret. -/
def separatorCodecs : Codecs where
  hmac := fun _ _ => #v[191, 49, 108, 62, 42, 129, 25, 58, 156, 10, 194, 174, 86, 130, 224, 124, 151, 80, 156, 36, 11,
    30, 67, 129, 222, 143, 147, 239, 240, 56, 193, 213]
  encode := Base64.encode
  decode := Base64.decode

theorem session_tokens_separator :
    separatorUser.verifyToken separatorCodecs (separatorUser.issueToken separatorCodecs "a|b" ⟨0, by decide, by decide⟩)
        ⟨604800, by decide, by decide⟩ = some "a|b" ∧
      ∃ since, ("a|b", since) ∈ [("a|b", (⟨0, by decide, by decide⟩ : Timestamp))] ∧
        604800 ≤ since.seconds + sessionTtlSecs := by
  have round : separatorCodecs.RoundTrips := Base64.decode_encode
  obtain ⟨complete, sound⟩ := session_tokens separatorUser separatorCodecs round
  have accepted := complete "a|b" ⟨0, by decide, by decide⟩ ⟨604800, by decide, by decide⟩
  rw [if_pos (by decide)] at accepted
  have genuine : separatorUser.Unforged separatorCodecs [("a|b", ⟨0, by decide, by decide⟩)]
      (separatorUser.issueToken separatorCodecs "a|b" ⟨0, by decide, by decide⟩) := by
    intro signed sig split _
    rw [splitToken_issueToken round] at split
    injection split with split
    injection split with same
    rw [← same]
    exact List.mem_singleton.mpr rfl
  obtain ⟨since, member, early, -, -⟩ := sound _ _ _ _ genuine accepted
  exact ⟨accepted, since, member, early⟩

end AuthState

end GasAnalyzer.Indexer
