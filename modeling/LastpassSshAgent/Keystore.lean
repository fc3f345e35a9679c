import LastpassSshAgent.Identities
import LastpassSshAgent.Signing

/-!
# The served set and the policy that admits keys to it

One policy, `accept` and `unique`, stands between a public key and the served
set, whether the key comes from the vault or from the identities file.
-/

namespace LastpassSshAgent

inductive KeyIssue where
  | fetch (e : LpassError)
  | empty
  | malformed (why : String)
  | unsupported (algorithm : String)
  | duplicate (otherItem : String)
  deriving DecidableEq, Repr

def KeyIssue.display : KeyIssue → String
  | .fetch e => e.display
  | .empty => "item has an empty Public Key field"
  | .malformed why => s!"Public Key field does not parse as an OpenSSH public key: {why}"
  | .unsupported algorithm => s!"this agent cannot sign with {algorithm} keys"
  | .duplicate otherItem => s!"same public key as item {otherItem} — signing would be ambiguous; keep one and pin it with [[keys]]"

structure KeyEntry where
  itemId : String
  name : String
  publicKey : PublicKey
  confirm : Bool
  passphraseFallback : PassphraseFallback
  deriving DecidableEq, Repr

def KeyEntry.fingerprint (ssh : Ssh) (entry : KeyEntry) : String :=
  ssh.fingerprint entry.publicKey.keyData

inductive KeyInspection where
  | usable (entry : KeyEntry)
  | unusable (itemId name : String) (issue : KeyIssue)
  deriving DecidableEq, Repr

structure KeyStore where
  entries : List KeyEntry
  deriving DecidableEq, Repr

/-- What one public key has to pass to be served, wherever it came from. -/
def accept (ssh : Ssh) (raw : Bytes) : Except KeyIssue PublicKey :=
  if raw.isEmpty then .error .empty
  else
    match ssh.publicFromOpenssh (trim (fromUtf8Lossy raw)) with
    | .error e => .error (.malformed e)
    | .ok key =>
      if canSign key.keyData.algorithm then .ok key
      else .error (.unsupported (ssh.algorithmName key.keyData.algorithm))

abbrev Seen := List (KeyData × String)

/-- One public key in two items would make signing ambiguous: the second is
refused and names the first. -/
def unique (seen : Seen) (key : PublicKey) (itemId : String) : Except KeyIssue PublicKey × Seen :=
  match seen.find? fun (seenKey, _) => seenKey == key.keyData with
  | some (_, otherItem) => (.error (.duplicate otherItem), seen)
  | none => (.ok key, seen ++ [(key.keyData, itemId)])

def acceptUnique (ssh : Ssh) (seen : Seen) (raw : Bytes) (itemId : String) :
    Except KeyIssue PublicKey × Seen :=
  match accept ssh raw with
  | .ok key => unique seen key itemId
  | .error issue => (.error issue, seen)

def isVerdict : KeyIssue → Bool
  | .empty => true
  | .malformed _ => true
  | .unsupported _ => true
  | .fetch (.itemNotFound _) => true
  | .fetch (.fieldNotFound _ _) => true
  | _ => false

def KeyConfig.entry (config : Config) (key : KeyConfig) (publicKey : PublicKey) : KeyEntry where
  itemId := key.id
  name := escapeForDisplay key.displayName
  publicKey := publicKey
  confirm := config.confirmRequired key
  passphraseFallback := config.fallbackFor key

/-- One item judged on the answer to its `Public Key` field. -/
def inspect (ssh : Ssh) (config : Config) (seen : Seen) (key : KeyConfig)
    (answer : Except LpassError Bytes) : KeyInspection × Seen :=
  let (result, seen) :=
    match answer with
    | .ok raw => acceptUnique ssh seen raw key.id
    | .error e => (.error (.fetch e), seen)
  match result with
  | .ok publicKey => (.usable (key.entry config publicKey), seen)
  | .error issue => (.unusable key.id (escapeForDisplay key.displayName) issue, seen)

theorem accept_of_acceptUnique {ssh : Ssh} {seen : Seen} {raw : Bytes} {itemId : String}
    {key : PublicKey} (h : (acceptUnique ssh seen raw itemId).1 = .ok key) : accept ssh raw = .ok key := by
  unfold acceptUnique at h
  split at h
  · rename_i key' hkey
    unfold unique at h
    split at h
    · cases h
    · exact hkey.trans h
  · cases h

/-- A usable key is the one the vault handed over. -/
theorem inspect_usable {ssh : Ssh} {config : Config} {seen : Seen} {key : KeyConfig}
    {answer : Except LpassError Bytes} {entry : KeyEntry}
    (h : (inspect ssh config seen key answer).1 = .usable entry) :
    ∃ raw publicKey, answer = .ok raw ∧ accept ssh raw = .ok publicKey ∧
      entry = key.entry config publicKey := by
  rcases answer with e | raw
  · cases h
  · unfold inspect at h
    dsimp only at h
    cases hkey : (acceptUnique ssh seen raw key.id).1 with
    | error issue => simp [hkey] at h
    | ok publicKey =>
      simp only [hkey, KeyInspection.usable.injEq] at h
      exact ⟨raw, publicKey, rfl, accept_of_acceptUnique hkey, h.symm⟩

/-- A key as discovery names it: nothing in the configuration overrides it. -/
def KeyConfig.discovered (id name : String) : KeyConfig where
  id := id
  name := some name

structure FromRemembered where
  store : KeyStore
  missing : List KeyConfig

namespace KeyStore

def isEmpty (store : KeyStore) : Bool := store.entries.isEmpty

def lookup (store : KeyStore) (keyData : KeyData) : Option KeyEntry :=
  store.entries.find? fun entry => entry.publicKey.keyData == keyData

def remember (ssh : Ssh) (store : KeyStore) : Remembered where
  keys := store.entries.map fun entry =>
    ⟨entry.itemId, entry.name, ssh.publicToOpenssh entry.publicKey⟩

/-- The keys a start from the file wants: the pinned ones, or the file's own. -/
def wantedFrom (remembered : Remembered) (config : Config) : List KeyConfig :=
  if config.keys.isEmpty then
    remembered.keys.map fun key => .discovered key.id key.name
  else config.keys

/-- The loop of `fromRemembered`: usable entries and missing keys, in order. -/
def rebuild (ssh : Ssh) (remembered : Remembered) (config : Config) :
    Seen → List KeyConfig → List KeyEntry × List KeyConfig
  | _, [] => ([], [])
  | seen, key :: wanted =>
    match remembered.keys.find? fun known => known.id == key.id with
    | none =>
      let (entries, missing) := rebuild ssh remembered config seen wanted
      (entries, key :: missing)
    | some known =>
      match acceptUnique ssh seen (utf8 known.publicKey) key.id with
      | (.ok publicKey, seen) =>
        let (entries, missing) := rebuild ssh remembered config seen wanted
        (key.entry config publicKey :: entries, missing)
      | (.error _, seen) =>
        let (entries, missing) := rebuild ssh remembered config seen wanted
        (entries, key :: missing)

/-- Rebuild the served set from what an earlier start wrote down, under the
policy a fresh fetch is held to. -/
def fromRemembered (ssh : Ssh) (remembered : Remembered) (config : Config) : FromRemembered :=
  let (entries, missing) := rebuild ssh remembered config [] (wantedFrom remembered config)
  ⟨⟨entries⟩, missing⟩

/-- The policy of `load` over one scan: stop at a duplicate or a shut vault, skip
anything else that is unusable. -/
def collect : List KeyInspection → Except Error (List KeyEntry)
  | [] => .ok []
  | .usable entry :: rest => do
    let entries ← collect rest
    .ok (entry :: entries)
  | .unusable itemId name (.duplicate other) :: _ =>
    .error (.configInvalid s!"item {itemId} ({name}): {(KeyIssue.duplicate other).display}")
  | .unusable _ _ (.fetch .notLoggedIn) :: _ => .error (.lpass .notLoggedIn)
  | .unusable _ _ (.fetch .locked) :: _ => .error (.lpass .locked)
  | .unusable _ _ (.fetch .wrongMasterPassword) :: _ => .error (.lpass .wrongMasterPassword)
  | .unusable _ _ (.fetch (.noMasterPassword why)) :: _ => .error (.lpass (.noMasterPassword why))
  | .unusable _ _ _ :: rest => collect rest

def finishLoad (entries : List KeyEntry) : Except Error KeyStore :=
  if entries.isEmpty then
    .error (.configInvalid
      "no usable keys: every configured item failed to load (see warnings above)")
  else .ok ⟨entries⟩

/-- The policy of `load_complete` over one scan: skip only what the vault has
given a verdict on. -/
def collectComplete : List KeyInspection → Option (List KeyEntry)
  | [] => some []
  | .usable entry :: rest => (collectComplete rest).map (entry :: ·)
  | .unusable _ _ issue :: rest => if isVerdict issue then collectComplete rest else none

theorem mem_collectComplete {inspected : List KeyInspection} {entries : List KeyEntry}
    {entry : KeyEntry} (h : collectComplete inspected = some entries) (he : entry ∈ entries) :
    .usable entry ∈ inspected := by
  induction inspected generalizing entries with
  | nil =>
    obtain rfl := Option.some.inj h
    cases he
  | cons inspection rest ih =>
    cases inspection with
    | usable first =>
      obtain ⟨others, hrest, rfl⟩ := Option.map_eq_some_iff.mp h
      rcases List.mem_cons.mp he with rfl | he
      · exact List.mem_cons_self
      · exact List.mem_cons_of_mem _ (ih hrest he)
    | unusable itemId name issue =>
      simp only [collectComplete] at h
      split_ifs at h
      exact List.mem_cons_of_mem _ (ih h he)

def finishComplete (entries : List KeyEntry) : Option KeyStore :=
  if entries.isEmpty then none else some ⟨entries⟩

end KeyStore

end LastpassSshAgent
