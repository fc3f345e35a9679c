import LastpassSshAgent.LpassCli

/-!
# Decrypting the key the vault handed over

The vault's passphrase is authoritative. Only an empty field hands over to the
fallback, and a passphrase is stored only once it has decrypted the key.
-/

namespace LastpassSshAgent

structure Unlocker where
  ssh : Ssh
  lpass : LpassCli

namespace Unlocker

def decrypt (ssh : Ssh) (encrypted : PrivateKey) (secret : Bytes) : Except String PrivateKey :=
  (ssh.decrypt encrypted secret).mapError fun e => s!"decrypting private key: {e}"

theorem decrypt_eq_ok {ssh : Ssh} {encrypted key : PrivateKey} {secret : Bytes} :
    decrypt ssh encrypted secret = .ok key ↔ ssh.decrypt encrypted secret = .ok key :=
  mapError_eq_ok

variable (unlocker : Unlocker) (entry : KeyEntry) (encrypted : PrivateKey)

/-- Ask the user, rejecting an answer that cannot be a passphrase. -/
def ask (gate : Bool) : Async (Except String Bytes × Bool) := do
  let gate ← InteractionGate.enter gate
  let answer : Except PromptError Bytes ← await (.prompt (.new unlocker.ssh entry))
  match answer with
  | .error e => pure (.error e.display, gate)
  | .ok typed =>
    if typed.isEmpty then pure (.error "no passphrase entered", gate) else pure (.ok typed, gate)

def fromSaved (saved : Except String (Option Bytes)) : Option PrivateKey :=
  match saved with
  | .ok (some secret) =>
    if MAX_PASSPHRASE_BYTES < secret.length then none
    else (unlocker.ssh.decrypt encrypted secret).toOption
  | _ => none

/-- Ask, verify, and only then save. -/
def askAndSave (gate : Bool) : Async (Except String PrivateKey × Bool) := do
  let (answer, gate) ← unlocker.ask entry gate
  match answer with
  | .error e => pure (.error e, gate)
  | .ok typed =>
    match decrypt unlocker.ssh encrypted typed with
    | .error e => pure (.error e, gate)
    | .ok key => do
      let _ : Except String Unit ← await (.storeSet (entry.fingerprint unlocker.ssh) typed)
      pure (.ok key, gate)

/-- Try what was saved for this key; ask, verify and save if that fails. The read
is an interaction like the prompt, so the gate comes before it. -/
def unlockFromStore (gate : Bool) : Async (Except String PrivateKey × Bool) := do
  let gate ← InteractionGate.enter gate
  let saved : Except String (Option Bytes) ← await (.storeGet (entry.fingerprint unlocker.ssh))
  match unlocker.fromSaved encrypted saved with
  | some key => pure (.ok key, gate)
  | none => unlocker.askAndSave entry encrypted gate

/-- What an empty field hands over to. -/
def fallBack (gate : Bool) : Async (Except String PrivateKey × Bool) :=
  match entry.passphraseFallback with
  | .error => pure
      (.error "private key is passphrase-protected but the item's Passphrase field is empty", gate)
  | .prompt => do
    let (answer, gate) ← unlocker.ask entry gate
    pure (answer.bind (decrypt unlocker.ssh encrypted), gate)
  | .keychain => unlocker.unlockFromStore entry encrypted gate
  | .secretService => unlocker.unlockFromStore entry encrypted gate

def unlock (gate : Bool) : Async (Except String PrivateKey × Bool) := do
  let stored ← unlocker.lpass.showField entry.itemId "Passphrase"
  match stored with
  | .error e => pure (.error s!"fetching passphrase: {e.display}", gate)
  | .ok stored =>
    if stored.isEmpty then unlocker.fallBack entry encrypted gate
    else pure (decrypt unlocker.ssh encrypted stored, gate)

end Unlocker

end LastpassSshAgent
