import Mathlib
import GasAnalyzer.Core.Trace
import GasAnalyzer.Indexer.Types

/-!
# The resolver and the name dictionary

Address → project: the curated overlay first, then the DefiLlama protocol list, kept in a snapshot that `refresh`
rebuilds. Contract name → slug: the dictionary the labeler looks names up in.
-/

namespace GasAnalyzer.Indexer

open Text

inductive AddressFault where
  | hex
  | length (bytes : Nat)
  deriving DecidableEq

inductive ResolverError where
  | io
  | yaml
  | address (text : Chars) (fault : AddressFault)
  | http
  | etherscan (what : String)
  | json
  deriving DecidableEq

/-- The 20 bytes a hexadecimal text spells. -/
def addressOfHex (digits : Chars) : Except AddressFault AddressBytes :=
  match decodeHex digits with
  | none => .error .hex
  | some bytes => if sized : bytes.toArray.size = 20 then .ok ⟨bytes.toArray, sized⟩ else .error (.length bytes.length)

def parseAddress (s : Chars) : Except ResolverError AddressBytes :=
  (addressOfHex ((stripPrefix "0x".toList s).getD s)).mapError (.address s)

/-! ### Snapshots -/

structure OverlayContact where
  primary : Option String
  url : Option String

structure OverlayEntry where
  chainId : UInt64
  address : String
  projectSlug : String
  projectName : String
  category : Option String
  contact : Option OverlayContact

structure DefiLlamaProtocol where
  slug : String
  name : String
  category : Option String
  address : Option String

/-- `entry(k).or_insert(v)` -/
def orInsert {κ ν : Type} [DecidableEq κ] (k : κ) (v : ν) (m : AList fun _ : κ => ν) : AList fun _ : κ => ν :=
  if k ∈ m then m else m.insert k v

structure ResolverSnapshot where
  addresses : AList fun _ : UInt64 × AddressBytes => ProjectInfo := ∅
  projects : AList fun _ : String => ProjectInfo := ∅

namespace ResolverSnapshot

def loadOverlay : List OverlayEntry → ResolverSnapshot → Except ResolverError ResolverSnapshot
  | [], into => .ok into
  | entry :: entries, into => do
    let address ← parseAddress entry.address.toList
    let info : ProjectInfo := {
      slug := entry.projectSlug
      name := entry.projectName
      category := entry.category
      contactEmail := entry.contact.bind (·.primary)
      contactUrl := entry.contact.bind (·.url) }
    loadOverlay entries {
      addresses := into.addresses.insert (entry.chainId, address) info
      projects := orInsert entry.projectSlug info into.projects }

def isEthereum (chain : Chars) : Bool := chain.map Char.toLower = "ethereum".toList

/-- Ethereum mainnet only. -/
def parseDefillamaAddress (raw : Option String) : Option (UInt64 × AddressBytes) := do
  let s := trim (← raw).toList
  if s = [] then none else
  let hexPart ← match splitOnce ':' s with
    | none => some s
    | some (chain, rest) => if isEthereum chain then some rest else none
  (parseAddress hexPart).toOption.map fun address => (1, address)

def loadDefillama : List DefiLlamaProtocol → ResolverSnapshot → ResolverSnapshot
  | [], into => into
  | p :: protocols, into =>
    let info : ProjectInfo := {
      slug := p.slug
      name := p.name
      category := p.category
      contactEmail := none
      contactUrl := none }
    let projects := orInsert p.slug info into.projects
    let addresses :=
      match parseDefillamaAddress p.address with
      | some key => orInsert key info into.addresses
      | none => into.addresses
    loadDefillama protocols { addresses, projects }

/-- The snapshot after the overlay; without a path there is nothing to load. -/
def fromOverlay : Option (Except ResolverError (List OverlayEntry)) → Except ResolverError ResolverSnapshot
  | none => .ok {}
  | some (.error error) => .error error
  | some (.ok entries) => loadOverlay entries {}

/-- `Resolver::refresh`: what the overlay file and the DefiLlama endpoint, where they are given, answered. A DefiLlama
failure is only logged. -/
def refresh (overlay : Option (Except ResolverError (List OverlayEntry)))
    (defillama : Option (Except ResolverError (List DefiLlamaProtocol))) : Except ResolverError ResolverSnapshot := do
  let withOverlay ← fromOverlay overlay
  match defillama with
  | some (.ok protocols) => .ok (loadDefillama protocols withOverlay)
  | _ => .ok withOverlay

/-- The snapshot of a worker: loaded once at start-up from the overlay, and empty when that fails. -/
def atStartUp (overlay : Except ResolverError (List OverlayEntry)) : ResolverSnapshot :=
  match refresh (some overlay) none with
  | .ok snapshot => snapshot
  | .error _ => {}

def find (snapshot : ResolverSnapshot) (key : UInt64 × AddressBytes) : Option ProjectInfo :=
  snapshot.addresses.lookup key

def resolve (snapshot : ResolverSnapshot) (chainId : UInt64) (address : AddressBytes) : ProjectInfo :=
  (snapshot.find (chainId, address)).getD (.unknown address)

/-! ### Every mapped slug has a project -/

/-- The slug of every mapping is the key of a project. -/
def Closed (snapshot : ResolverSnapshot) : Prop :=
  ∀ key info, snapshot.find key = some info → info.slug ∈ snapshot.projects

/-- Projects are filed under their own slug. -/
def Filed (snapshot : ResolverSnapshot) : Prop :=
  ∀ slug info, snapshot.projects.lookup slug = some info → info.slug = slug

theorem mem_orInsert {κ ν : Type} [DecidableEq κ] {k k' : κ} {v : ν} {m : AList fun _ : κ => ν} :
    k' ∈ orInsert k v m ↔ k' = k ∨ k' ∈ m := by
  rw [orInsert]
  split
  · rename_i inside
    constructor
    · exact Or.inr
    · intro either
      rcases either with rfl | old
      · exact inside
      · exact old
  · exact AList.mem_insert m

theorem lookup_orInsert {κ ν : Type} [DecidableEq κ] {k k' : κ} {v v' : ν} {m : AList fun _ : κ => ν}
    (found : (orInsert k v m).lookup k' = some v') : (k' = k ∧ v' = v) ∨ m.lookup k' = some v' := by
  rw [orInsert] at found
  split at found
  · exact Or.inr found
  · by_cases same : k' = k
    · subst same
      rw [AList.lookup_insert] at found
      injection found with found
      exact Or.inl ⟨rfl, found.symm⟩
    · rw [AList.lookup_insert_ne same] at found
      exact Or.inr found

theorem loadOverlay_closed {entries : List OverlayEntry} {into out : ResolverSnapshot}
    (loaded : loadOverlay entries into = .ok out) (closed : into.Closed) (filed : into.Filed) :
    out.Closed ∧ out.Filed := by
  induction entries generalizing into with
  | nil =>
    injection loaded with same
    subst same
    exact ⟨closed, filed⟩
  | cons entry entries ih =>
    obtain ⟨address, -, loaded⟩ := Outcome.bind_ok loaded
    apply ih loaded
    · intro key info found
      simp only [find] at found ⊢
      rw [mem_orInsert]
      by_cases same : key = (entry.chainId, address)
      · subst same
        rw [AList.lookup_insert] at found
        injection found with found
        exact Or.inl (congrArg ProjectInfo.slug found.symm)
      · rw [AList.lookup_insert_ne same] at found
        exact Or.inr (closed key info found)
    · intro slug info found
      rcases lookup_orInsert found with ⟨named, same⟩ | old
      · rw [same, named]
      · exact filed slug info old

theorem loadDefillama_closed {protocols : List DefiLlamaProtocol} {into : ResolverSnapshot} (closed : into.Closed)
    (filed : into.Filed) : (loadDefillama protocols into).Closed ∧ (loadDefillama protocols into).Filed := by
  induction protocols generalizing into with
  | nil => exact ⟨closed, filed⟩
  | cons p protocols ih =>
    apply ih
    · intro key info found
      simp only [find] at found ⊢
      rw [mem_orInsert]
      split at found
      · rcases lookup_orInsert found with ⟨-, same⟩ | old
        · exact Or.inl (congrArg ProjectInfo.slug same)
        · exact Or.inr (closed key info old)
      · exact Or.inr (closed key info found)
    · intro slug info found
      rcases lookup_orInsert found with ⟨named, same⟩ | old
      · rw [same, named]
      · exact filed slug info old

theorem empty_closed : ({} : ResolverSnapshot).Closed ∧ ({} : ResolverSnapshot).Filed :=
  ⟨fun _ _ found => by simp [find] at found, fun _ _ found => by simp at found⟩

theorem refresh_closed {overlay : Option (Except ResolverError (List OverlayEntry))}
    {defillama : Option (Except ResolverError (List DefiLlamaProtocol))} {snapshot : ResolverSnapshot}
    (refreshed : refresh overlay defillama = .ok snapshot) : snapshot.Closed ∧ snapshot.Filed := by
  obtain ⟨withOverlay, loaded, refreshed⟩ := Outcome.bind_ok refreshed
  have base : withOverlay.Closed ∧ withOverlay.Filed := by
    rcases overlay with _ | _ | entries
    · injection loaded with same
      subst same
      exact empty_closed
    · cases loaded
    · exact loadOverlay_closed loaded empty_closed.1 empty_closed.2
  rcases defillama with _ | _ | protocols
  · injection refreshed with same
    subst same
    exact base
  · injection refreshed with same
    subst same
    exact base
  · injection refreshed with same
    subst same
    exact loadDefillama_closed base.1 base.2

end ResolverSnapshot

/-! ### The name dictionary -/

/-- `char::is_uppercase`, `char::is_lowercase` and `char::to_lowercase`. -/
structure CharTables where
  isUppercase : Char → Bool
  isLowercase : Char → Bool
  toLowercase : Char → Chars

/-- A dash before each capital that follows a small letter or a digit, then everything lower-case. -/
def dashCapitals (tables : CharTables) : Option Char → Chars → Chars
  | _, [] => []
  | prev, c :: cs =>
    let boundary := tables.isUppercase c && prev.any fun p => tables.isLowercase p || p.isDigit
    (if boundary then ['-'] else []) ++ tables.toLowercase c ++ dashCapitals tables (some c) cs

def normalizeName (tables : CharTables) (s : Chars) : Chars :=
  (dashCapitals tables none s).map fun c => if c = '_' ∨ c = ' ' then '-' else c

def suffixes : List String :=
  ["-router02", "-routerv2", "-router", "-implementation", "-proxy", "-token", "-v4", "-v3", "-v2", "-v1"]

/-- `str::strip_suffix` -/
def stripSuffix (suffix s : Chars) : Option Chars := (stripPrefix suffix.reverse s.reverse).map List.reverse

def stripOneSuffix (s : Chars) : Chars := (suffixes.findSome? fun suffix => stripSuffix suffix.toList s).getD s

structure NameDict where
  tables : CharTables
  map : AList fun _ : Chars => String

namespace NameDict

def load (tables : CharTables) (entries : List (String × String)) : NameDict where
  tables
  map := entries.foldl (fun map (name, slug) => map.insert (normalizeName tables name.toList) slug) ∅

def lookupStripped (names : NameDict) : Nat → Chars → Option String
  | 0, _ => none
  | n + 1, s =>
    let trimmed := stripOneSuffix s
    if trimmed = s then none
    else (names.map.lookup trimmed).or (lookupStripped names n trimmed)

def lookup (names : NameDict) (contractName : String) : Option String :=
  let normalized := normalizeName names.tables contractName.toList
  (names.map.lookup normalized).or (lookupStripped names 4 normalized)

end NameDict

end GasAnalyzer.Indexer
