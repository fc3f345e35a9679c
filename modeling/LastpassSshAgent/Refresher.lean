import LastpassSshAgent.LpassCli

/-!
# Scanning the vault, and keeping the served set and the file current

Discovery's probes overlap in the source. Here each is made when the set of probes
hands its answer over, in whatever order the set chooses; what an overlapping probe
can do to the rest of the agent, any number of `probe` tasks do.
-/

namespace LastpassSshAgent

def MAX_DISCOVERY_PROBES : ℕ := 8

/-- Whether an item is an SSH key, from the answer to its `NoteType`. An item that
is not a note, or is gone, is none; any other failure is the vault's. -/
def judgeProbe (answer : Except LpassError Bytes) : Except LpassError Bool :=
  match answer with
  | .ok noteType => .ok (noteType == utf8 "SSH Key")
  | .error (.fieldNotFound _ _) => .ok false
  | .error (.itemNotFound _) => .ok false
  | .error e => .error e

def listingOrder (a b : ItemSummary) : Bool := a.name < b.name || (a.name == b.name && a.id ≤ b.id)

/-- The loop of discovery over the probes in flight and the items not yet probed.
An iteration settles one item, so as many as there are items do. -/
def joinProbes (client : LpassCli) :
    ℕ → List ItemSummary → List ItemSummary → List ItemSummary →
      Async (Except LpassError (List ItemSummary))
  | 0, _, _, found => pure (.ok found)
  | fuel + 1, probes, items, found =>
    let room := MAX_DISCOVERY_PROBES - probes.length
    let probes := probes ++ items.take room
    if probes.isEmpty then pure (.ok found)
    else do
      let index : ℕ ← await (.nextProbe probes.length)
      match probes[index]? with
      | none => pure (.ok found)
      | some item => do
        let answer ← client.showField item.id "NoteType"
        match judgeProbe answer with
        | .error e => pure (.error e)
        | .ok isSshKey =>
          joinProbes client fuel (probes.eraseIdx index) (items.drop room)
            (if isSshKey then found ++ [item] else found)

/-- The SSH Key items of the vault: one `ls`, then a probe per item. -/
def discoverSshKeyItems (client : LpassCli) : Async (Except LpassError (List ItemSummary)) := do
  let listing ← client.ls
  match listing with
  | .error e => pure (.error e)
  | .ok candidates => do
    let found ← joinProbes client candidates.length [] candidates []
    pure (found.map fun found => found.mergeSort listingOrder)

def noItemsText : String :=
  "no SSH Key items found in the vault (create one in LastPass, or pin items with [[keys]] in the config)"

def effectiveKeys (client : LpassCli) (config : Config) : Async (Except Error (List KeyConfig)) :=
  if config.keys.isEmpty then do
    let found ← discoverSshKeyItems client
    match found with
    | .error e => pure (.error (.lpass e))
    | .ok found =>
      if found.isEmpty then pure (.error (.configInvalid noItemsText))
      else pure (.ok (found.map fun item => .discovered item.id item.name))
  else pure (.ok config.keys)

variable (ssh : Ssh) (client : LpassCli) (config : Config)

def inspectKeys : Seen → List KeyConfig → Async (List KeyInspection)
  | _, [] => pure []
  | seen, key :: keys => do
    let answer ← client.showField key.id "Public Key"
    let rest ← inspectKeys (inspect ssh config seen key answer).2 keys
    pure ((inspect ssh config seen key answer).1 :: rest)

namespace KeyStore

def load (keys : List KeyConfig) : Async (Except Error KeyStore) := do
  let inspected ← inspectKeys ssh client config [] keys
  pure ((collect inspected).bind finishLoad)

/-- As `load`, for a refresh that will replace a set already being served. -/
def loadComplete (keys : List KeyConfig) : Async (Option KeyStore) := do
  let inspected ← inspectKeys ssh client config [] keys
  pure ((collectComplete inspected).bind finishComplete)

end KeyStore

structure Refresher where
  ssh : Ssh
  toml : Toml
  config : Config
  client : LpassCli

namespace Refresher

def saveBestEffort (toml : Toml) (remembered : Remembered) : Async Unit :=
  note (.saved remembered (Identities.encode toml remembered))

variable (refresher : Refresher)

/-- Scan now. Only a complete scan replaces anything. -/
def refreshNow : Async Unit := do
  let keys ← effectiveKeys refresher.client refresher.config
  match keys with
  | .error _ => pure ()
  | .ok keys => do
    let loaded ← KeyStore.loadComplete refresher.ssh refresher.client refresher.config keys
    match loaded with
    | none => pure ()
    | some store => do
      note (.replaced store)
      saveBestEffort refresher.toml (store.remember refresher.ssh)

def scan : Async Unit := do
  refresher.refreshNow
  note .scanned

end Refresher

end LastpassSshAgent
