import LastpassSshAgent.Resumption.Pool
import LastpassSshAgent.Approvals
import LastpassSshAgent.Confirm

/-!
# The state the agent's tasks share

Signing requests, the refresher, its discovery probes, the screen watch and the
idle expiry run on one thread and change place only at their awaits. `World` is
what they share, `Query` is everything they await, and an `Event` is what one run
of statements between two awaits does to the world, or reports. The clock counts
nanoseconds.
-/

namespace LastpassSshAgent

def seconds (n : ℕ) : ℕ := n * 1000000000

inductive Source where
  | store | prompt
  deriving DecidableEq, Repr

structure Held where
  secret : Bytes
  source : Source
  lastUsed : ℕ
  deriving DecidableEq, Repr

/-- Where a vault client gets the master password when it finds the vault locked. -/
inductive MasterPasswordSource where
  | none
  | fixed (secret : Bytes)
  | unlock
  | heldOnly
  deriving DecidableEq, Repr

structure PassphraseRequest where
  keyName : String
  fingerprint : String
  itemId : String
  masterPassword : Bool
  deriving DecidableEq, Repr

namespace PassphraseRequest

def new (ssh : Ssh) (entry : KeyEntry) : PassphraseRequest :=
  ⟨entry.name, entry.fingerprint ssh, entry.itemId, false⟩

def master : PassphraseRequest := ⟨"", "", "", true⟩

end PassphraseRequest

inductive PromptError where
  | cancelled
  | unavailable (why : String)
  | tooLong (max : ℕ)
  deriving DecidableEq, Repr

def PromptError.display : PromptError → String
  | .cancelled => "passphrase entry cancelled"
  | .unavailable why => s!"no interactive passphrase prompt is available: {why}"
  | .tooLong max => s!"passphrase longer than {max} bytes, refused"

/-! ### The refresher's own state -/

def REFRESH_INTERVAL : ℕ := seconds 3600

/-- When the last attempt began, whether a scan is in flight, and how many have been
spawned that have not started. -/
structure Refresh where
  last : Option ℕ
  running : Bool
  queued : ℕ
  deriving DecidableEq, Repr

namespace Refresh

def due (refresh : Refresh) (clock : ℕ) : Bool :=
  !(refresh.last.any fun began => clock - began < REFRESH_INTERVAL)

def spawn (refresh : Refresh) : Refresh :=
  if refresh.running then refresh
  else { refresh with running := true, queued := refresh.queued + 1 }

/-- A scan in flight is looked at before the throttle is consulted. -/
def afterSignature (refresh : Refresh) (clock : ℕ) : Refresh :=
  if refresh.running || !refresh.due clock then refresh
  else spawn { refresh with last := some clock }

def atStartup (refresh : Refresh) : Refresh := refresh.spawn

end Refresh

/-! ### The world -/

structure World where
  clock : ℕ
  gate : Option ℕ
  heldLock : Option ℕ
  held : Option Held
  storeRejected : Bool
  epoch : LockEpoch
  approvals : Approvals
  served : KeyStore
  identities : File
  diskWorks : Bool
  refresh : Refresh
  processes : Processes

structure SignRequest where
  keyData : KeyData
  data : Bytes
  flags : UInt32
  deriving DecidableEq, Repr

/-- Every refusal reads the same to the client. -/
inductive AgentError where
  | failure
  deriving DecidableEq, Repr

inductive LpassRun where
  | spawn (why : String)
  | timeout
  | exited (code : Option ℤ) (stdout stderr : Bytes)
  deriving DecidableEq, Repr

/-- What a task awaits: the two locks, `lpass`, the user, the stores, the host
names, and which of several probes finishes next. -/
inductive Query where
  | gate
  | held
  | lpass (args : List String) (password : Option Bytes) (maxBytes : ℕ)
  | masterStore
  | prompt (request : PassphraseRequest)
  | confirm (ctx : ConfirmContext)
  | namesFor (fingerprints : List String)
  | storeGet (fingerprint : String)
  | storeSet (fingerprint : String) (secret : Bytes)
  | nextProbe (count : ℕ)
  deriving DecidableEq, Repr

def Query.Answer : Query → Type
  | .gate => Unit
  | .held => Unit
  | .lpass _ _ _ => LpassRun
  | .masterStore => Except String (Option Bytes)
  | .prompt _ => Except PromptError Bytes
  | .confirm _ => Decision
  | .namesFor _ => List (Option String)
  | .storeGet _ => Except String (Option Bytes)
  | .storeSet _ _ => Except String Unit
  | .nextProbe _ => ℕ

/-- One run of statements between two awaits. The last group changes nothing: it
puts on record what a client was asked and what came of it, what a request found
remembered, and what it was answered. -/
inductive Event where
  | gateReleased
  | heldReleased
  | asked
  | holding (secret : Bytes) (source : Source)
  | touched
  | rejected
  | forgotten
  | expired
  | settled (answer : Answer) (asked signed : Bool)
  | discarded (item why : String)
  | issued
  | replaced (store : KeyStore)
  | saved (remembered : Remembered) (encoded : Except Error Bytes)
  | scanned
  | called (source : MasterPasswordSource) (item field : String)
  | returned (source : MasterPasswordSource) (item field : String)
      (result : Except LpassError Bytes)
  | listed (source : MasterPasswordSource) (result : Except LpassError (List ItemSummary))
  | recalled (question : String) (epoch : ℕ)
  | replied (result : Except AgentError Signature)
  deriving DecidableEq

inductive Task where
  | sign (peer : Option PeerInfo) (bindings : List SessionBinding) (request : SignRequest)
  | refresh
  | probe (item : String)
  | forget
  | expire
  deriving DecidableEq, Repr

inductive Drift where
  | tick (n : ℕ)
  | processes (table : Processes)
  | disk (works : Bool)

namespace Identities

/-- What a path holds once it has been removed, where that can be done. -/
def remove (works : Bool) (file : File) : File := if works then .absent else file

/-- What a path holds once an encoded set has been written there, where that can
be done. -/
def save (works : Bool) (encoded : Except Error Bytes) (file : File) : File :=
  match encoded with
  | .ok bytes => if works then .regular bytes else file
  | .error _ => file

end Identities

namespace World

def reject (w : World) : World :=
  match w.held with
  | none => w
  | some was =>
    { w with
      held := none
      epoch := w.epoch.bump
      storeRejected := w.storeRejected || was.source == .store }

def apply : Event → World → World
  | .gateReleased, w => { w with gate := none }
  | .heldReleased, w => { w with heldLock := none }
  | .asked, w => { w with epoch := w.epoch.unlocked }
  | .holding secret source, w => { w with held := some ⟨secret, source, w.clock⟩ }
  | .touched, w => { w with held := w.held.map fun held => { held with lastUsed := w.clock } }
  | .rejected, w => w.reject
  | .forgotten, w => { w with held := none, epoch := w.epoch.bump }
  | .expired, w => { w with held := none, epoch := w.epoch.bump }
  | .settled answer asked signed, w =>
    { w with
      epoch := Approvals.settledEpoch w.epoch asked
      approvals := w.approvals.settle w.epoch answer asked signed }
  | .discarded _ _, w => { w with identities := Identities.remove w.diskWorks w.identities }
  | .issued, w => { w with refresh := w.refresh.afterSignature w.clock }
  | .replaced store, w => { w with served := store }
  | .saved _ encoded, w =>
    { w with identities := Identities.save w.diskWorks encoded w.identities }
  | .scanned, w => { w with refresh := { w.refresh with running := false } }
  | .called _ _ _, w => w
  | .returned _ _ _ _, w => w
  | .listed _ _, w => w
  | .recalled _ _, w => w
  | .replied _, w => w

/-- A lock is granted only while nobody holds it; every other answer leaves the
world as it is. -/
def effect (t : ℕ) : (q : Query) → q.Answer → World → Option World
  | .gate, _, w => if w.gate = none then some { w with gate := some t } else none
  | .held, _, w => if w.heldLock = none then some { w with heldLock := some t } else none
  | .nextProbe count, (index : ℕ), w => if index < count then some w else none
  | _, _, w => some w

/-- A spawned scan starts once; anything else may start at any time. -/
def launch : Task → World → Option World
  | .refresh, w =>
    if 0 < w.refresh.queued then
      some { w with refresh := { w.refresh with queued := w.refresh.queued - 1 } }
    else none
  | _, w => some w

def drift : Drift → World → World
  | .tick n, w => { w with clock := w.clock + n }
  | .processes table, w => { w with processes := table }
  | .disk works, w => { w with diskWorks := works }

end World

/-- The agent, as programs run against it. -/
abbrev runtime : Resumption.Interface where
  State := World
  Event := Event
  Query := Query
  Answer := Query.Answer
  Task := Task
  Drift := Drift
  apply := World.apply
  effect := World.effect
  launch := World.launch
  drift := World.drift

/-! ### Acts can be compared -/

section

open Resumption

instance (act : Act runtime) (e : Event) : Decidable (act = .noted e) :=
  match act with
  | .noted e' => decidable_of_iff (e' = e) ⟨congrArg _, Act.noted.inj⟩
  | .started _ => isFalse nofun
  | .began _ => isFalse nofun
  | .answered _ _ => isFalse nofun
  | .ended => isFalse nofun

instance (act : Act runtime) (q : Query) : Decidable (act = .began q) :=
  match act with
  | .began q' => decidable_of_iff (q' = q) ⟨congrArg _, Act.began.inj⟩
  | .started _ => isFalse nofun
  | .noted _ => isFalse nofun
  | .answered _ _ => isFalse nofun
  | .ended => isFalse nofun

instance (act : Act runtime) (task : Task) : Decidable (act = .started task) :=
  match act with
  | .started task' => decidable_of_iff (task' = task) ⟨congrArg _, Act.started.inj⟩
  | .began _ => isFalse nofun
  | .noted _ => isFalse nofun
  | .answered _ _ => isFalse nofun
  | .ended => isFalse nofun

end

abbrev Async (α : Type) : Type := Resumption.Program runtime α

abbrev world : Async World := Resumption.Program.get

abbrev note (e : Event) : Async Unit := Resumption.Program.tell (I := runtime) e

abbrev await (q : Query) : Async q.Answer := Resumption.Program.ask (I := runtime) q

end LastpassSshAgent
