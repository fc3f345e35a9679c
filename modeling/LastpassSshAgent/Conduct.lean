import LastpassSshAgent.Completeness

/-!
# The agent's rules of conduct

What a thread may do is stated over its own history and over the locks it holds: an
approval stands before anything secret is called for, the gate before anything the
user sees, the lock of the held password before anything that changes it.
-/

namespace LastpassSshAgent

open Resumption

/-- One signing request, and the entry of the served set it is about. -/
structure Job where
  peer : Option PeerInfo
  bindings : List SessionBinding
  request : SignRequest
  entry : KeyEntry

/-! ### A thread's own history -/

section Own

variable (s : Stage runtime) (t : ℕ)

/-- What an act says about the vault call in progress. -/
def callMark : Act runtime → Option (Option MasterPasswordSource)
  | .noted (.called source _ _) => some (some source)
  | .noted (.returned _ _ _ _) => some none
  | _ => none

def calling : Option MasterPasswordSource :=
  ((s.history.filter fun x => x.tid == t).findSome? fun x => callMark x.act).join

def Called (source : MasterPasswordSource) (item field : String) : Prop :=
  ∃ newer x older, s.history = newer ++ x :: older ∧ x.tid = t ∧
    x.act = .noted (.called source item field) ∧
    ∀ y ∈ newer, y.tid = t → ∀ source item field, y.act ≠ .noted (.called source item field)

def Decides : Act runtime → Prop
  | .noted (.settled _ _ _) => True
  | .noted (.replied _) => True
  | .answered (.confirm _) decision => decision = Decision.deny
  | _ => False

def Undecided : Prop := ∀ x ∈ s.history, x.tid = t → ¬ Decides x.act

def Inert (x : Entry runtime) : Prop := x.after = { x.before with gate := x.after.gate }

def Idle : Prop := ∀ x ∈ s.history, x.tid = t → Inert x

/-- A request that has shown nothing yet and changed nothing. -/
structure Untried : Prop where
  idle : Idle s t
  unconfirmed : ∀ x ∈ s.history, x.tid = t → ∀ ctx d, x.act ≠ .answered (.confirm ctx) d

def HandsOver : Act runtime → Prop
  | .noted (.returned _ _ field (.ok _)) => field = "Private Key"
  | _ => False

def Unfetched : Prop := ∀ x ∈ s.history, x.tid = t → ¬ HandsOver x.act

variable (env : Env) (job : Job)

/-- What is shown about `job`: its entry, its peer, and its bindings by whatever names. -/
def About (ctx : ConfirmContext) : Prop :=
  ∃ table names, ctx = .new env.ssh table job.entry job.peer
    (LpassAgent.nameBindings job.bindings names)

/-- Thread `t` serves `job`: the entry is the one the request names in the set served
when it began, and the connection's bindings allow it. -/
def Serves : Prop :=
  (env.session job.peer job.bindings).boundElsewhere job.entry job.request.data = false ∧
    ∃ x ∈ s.history, x.tid = t ∧ x.act = .started (.sign job.peer job.bindings job.request) ∧
      x.after.served.lookup job.request.keyData = some job.entry

def Approved : Prop :=
  job.entry.confirm = false ∨ (∃ ctx, s.Did t (.answered (.confirm ctx) Decision.approve)) ∨
    ∃ question epoch, s.Did t (.noted (.recalled question epoch))

def Fetched (key : PrivateKey) : Prop :=
  ∃ source pem, s.Did t (.noted (.returned source job.entry.itemId "Private Key" (.ok pem))) ∧
    env.ssh.privateFromOpenssh pem = .ok key ∧
    key.publicKey.keyData = job.entry.publicKey.keyData

def Cleared (item : String) : Prop :=
  ∃ job, Serves s t env job ∧ Approved s t job ∧ job.entry.itemId = item

def Matched (item : String) : Prop :=
  ∃ job key, Serves s t env job ∧ Approved s t job ∧ Fetched s t env job key ∧
    job.entry.itemId = item

/-- What an answer has to rest on. A yes given now belongs to the epoch it was given
in, and whoever gave it still has the gate. -/
def Answered : Answer → Prop
  | .notNeeded => job.entry.confirm = false
  | .remembered epoch => ∃ question, s.Did t (.noted (.recalled question epoch))
  | .given question epoch => s.shared.gate = some t ∧
      ∃ ctx, ∃ x ∈ s.history, x.tid = t ∧ x.act = .answered (.confirm ctx) Decision.approve ∧
        approvalQuestion ctx = question ∧ x.after.epoch.locks = epoch

/-- A signature by the advertised key over exactly what was requested. -/
def Signs (signature : Signature) : Prop :=
  ∃ key key', Fetched s t env job key ∧
    (key' = key ∨ ∃ secret, env.ssh.decrypt key secret = .ok key') ∧
    signWithKey env.ssh key' job.request.data job.request.flags = .ok signature

/-- Thread `t` settled on a signature, and the answer it was made on still covered it. -/
def Released : Prop :=
  ∃ x ∈ s.history, x.tid = t ∧ ∃ answer asked, x.act = .noted (.settled answer asked true) ∧
    Approvals.verdict x.before.epoch answer asked = .covered

/-- The last that thread `t` did was `e`, and to give the lock of the held password back. -/
def Changed (e : Event) : Prop :=
  ∃ newer x older, s.history = newer ++ x :: older ∧ x.tid = t ∧ x.act = .noted e ∧
    ∀ y ∈ newer, y.tid = t → y.act = .noted .heldReleased

/-- Thread `t` has read the public key that a set to be written down lists. -/
def ReadBy (listed : RememberedKey) : Prop :=
  ∃ raw key, s.Did t (.noted (.returned .heldOnly listed.id "Public Key" (.ok raw))) ∧
    accept env.ssh raw = .ok key ∧ env.ssh.publicToOpenssh key = listed.publicKey

/-! ### The rules -/

def Asking : Prop :=
  s.shared.gate = some t ∧ s.shared.heldLock = some t ∧ calling s t = some .unlock ∧
    ∃ item, Cleared s t env item

/-- Free to show the user something. -/
def Interacting : Prop :=
  s.shared.gate = some t ∧ s.shared.heldLock ≠ some t ∧ calling s t = none

def MayBegin : Query → Prop
  | .gate => s.shared.gate ≠ some t ∧ ∃ job, Serves s t env job
  | .held => s.shared.heldLock ≠ some t
  | .masterStore => Asking s t env
  | .prompt request =>
    if request.masterPassword then Asking s t env
    else Interacting s t ∧ ∃ item, Matched s t env item
  | .confirm ctx => Interacting s t ∧ Untried s t ∧ ∃ job, Serves s t env job ∧ About env job ctx
  | .storeGet _ => Interacting s t ∧ ∃ item, Matched s t env item
  | .storeSet _ _ => Interacting s t ∧ ∃ item, Matched s t env item
  | _ => True

def MayCall (source : MasterPasswordSource) (item field : String) : Prop :=
  (source = .unlock → s.shared.gate = some t) ∧ s.shared.heldLock ≠ some t ∧ calling s t = none ∧
    (field = "Private Key" → Cleared s t env item) ∧ (field = "Passphrase" → Matched s t env item)

def MaySettle (answer : Answer) (asked : Bool) : Prop :=
  ∃ job, Serves s t env job ∧ Answered s t job answer ∧
    (asked = true ↔ s.Did t (.noted .asked))

def MayReply : Except AgentError Signature → Prop
  | .ok signature => ∃ job, Serves s t env job ∧ Released s t ∧ Signs s t env job signature
  | .error _ => ((∃ job, Serves s t env job) ∧
      (∃ answer asked signed, s.Did t (.noted (.settled answer asked signed))) ∧
      ∀ ctx, ¬ s.Did t (.answered (.confirm ctx) Decision.deny)) ∨ Idle s t

def MayNote : Event → Prop
  | .gateReleased => s.shared.gate = some t ∧ ∃ result, s.Did t (.noted (.replied result))
  | .heldReleased => s.shared.heldLock = some t
  | .asked => Asking s t env ∧ s.shared.held = none
  | .holding _ _ => s.shared.heldLock = some t ∧ s.shared.gate = some t ∧ s.shared.held = none
  | .touched => s.shared.heldLock = some t ∧ s.shared.gate = some t
  | .rejected => s.shared.heldLock = some t
  | .forgotten => s.shared.heldLock = some t
  | .expired => s.shared.heldLock = some t ∧
      ∃ idle, env.unlock.idle = some idle ∧ Unlock.idled idle s.shared = true
  | .settled answer asked _ => MaySettle s t env answer asked
  | .discarded item _ => ∃ job, Serves s t env job ∧ job.entry.itemId = item
  | .replaced store => s.Did t (.started .refresh) ∧
      Loaded s t .heldOnly env.ssh env.config store
  | .saved remembered encoded => encoded = Identities.encode env.toml remembered ∧
      (∀ listed ∈ remembered.keys, ReadBy s t env listed) ∧
      ∃ store, s.last t = some (.noted (.replaced store)) ∧ remembered = store.remember env.ssh
  | .called source item field => MayCall s t env source item field
  | .returned source item field result => calling s t = some source ∧
      Called s t source item field ∧
      (HandsOver (.noted (.returned source item field result)) → Unfetched s t) ∧
      ∀ value, source = .unlock → result = .ok value → Changed s t .touched
  | .listed _ result => ∀ items, result = .ok items → ∀ item ∈ items, isItemId item.id = true
  | .recalled question epoch => (∃ job ctx, Serves s t env job ∧ About env job ctx ∧
      approvalQuestion ctx = some question) ∧
      s.shared.approvals.rememberedIn s.shared.epoch question = some epoch
  | .issued => Released s t ∧ ∀ result, ¬ s.Did t (.noted (.replied result))
  | .replied result => MayReply s t env result
  | _ => True

/-- What may follow a decision. -/
def Closing : Act runtime → Prop
  | .noted .issued => True
  | .noted (.replied _) => True
  | .noted .gateReleased => True
  | .ended => True
  | _ => False

def MayAct : Act runtime → Prop
  | .began q => MayBegin s t env q
  | .noted e => MayNote s t env e
  | .ended => s.shared.gate ≠ some t ∧ s.shared.heldLock ≠ some t ∧
      (s.Did t (.started .forget) → s.Did t (.noted .forgotten))
  | _ => True

end Own

/-- While it waits for the gate a thread does not hold it; while it holds the lock of
the password it waits only for whoever supplies one. -/
def MayPause (t : ℕ) (q : Query) (s : Stage runtime) : Prop :=
  (q = .gate → s.shared.gate ≠ some t) ∧
    (s.shared.heldLock = some t → q = .masterStore ∨ ∃ request, q = .prompt request) ∧
    ∀ count, q = .nextProbe count → 0 < count

/-- Before a decision anything the agent's rules allow; after it only its close. -/
def Env.rules (env : Env) : Rules runtime where
  allowed s t act := (Undecided s t ∨ Closing act) ∧ MayAct s t env act
  pause t q s := MayPause t q s

/-! ### What a longer history keeps -/

section Mono

variable {s s' : Stage runtime} {t : ℕ} {env : Env} {job : Job}

theorem Serves.mono (h : Serves s t env job) (hs : s.history <:+ s'.history) :
    Serves s' t env job := by
  obtain ⟨hb, x, hx, ht, ha, hl⟩ := h
  exact ⟨hb, x, hs.subset hx, ht, ha, hl⟩

theorem Approved.mono (h : Approved s t job) (hs : s.history <:+ s'.history) :
    Approved s' t job := by
  rcases h with h | ⟨ctx, h⟩ | ⟨question, epoch, h⟩
  · exact .inl h
  · exact .inr (.inl ⟨ctx, h.mono hs⟩)
  · exact .inr (.inr ⟨question, epoch, h.mono hs⟩)

theorem Fetched.mono {key : PrivateKey} (h : Fetched s t env job key)
    (hs : s.history <:+ s'.history) : Fetched s' t env job key := by
  obtain ⟨source, pem, h, hk⟩ := h
  exact ⟨source, pem, h.mono hs, hk⟩

theorem Cleared.mono {item : String} (h : Cleared s t env item) (hs : s.history <:+ s'.history) :
    Cleared s' t env item := by
  obtain ⟨job, h, ha, hi⟩ := h
  exact ⟨job, h.mono hs, ha.mono hs, hi⟩

theorem Matched.mono {item : String} (h : Matched s t env item) (hs : s.history <:+ s'.history) :
    Matched s' t env item := by
  obtain ⟨job, key, h, ha, hk, hi⟩ := h
  exact ⟨job, key, h.mono hs, ha.mono hs, hk.mono hs, hi⟩

theorem Matched.cleared {item : String} (h : Matched s t env item) : Cleared s t env item := by
  obtain ⟨job, key, h, ha, -, hi⟩ := h
  exact ⟨job, h, ha, hi⟩

theorem asking_or_matched {request : PassphraseRequest} (h : MayBegin s t env (.prompt request)) :
    (request.masterPassword = true ∧ Asking s t env) ∨
      request.masterPassword = false ∧ Interacting s t ∧ ∃ item, Matched s t env item := by
  have hmay : if request.masterPassword then Asking s t env
      else Interacting s t ∧ ∃ item, Matched s t env item := h
  split_ifs at hmay with hmaster
  · exact .inl ⟨hmaster, hmay⟩
  · exact .inr ⟨by simpa using hmaster, hmay⟩

theorem Signs.mono {signature : Signature} (h : Signs s t env job signature)
    (hs : s.history <:+ s'.history) : Signs s' t env job signature := by
  obtain ⟨key, key', hk, h⟩ := h
  exact ⟨key, key', hk.mono hs, h⟩

theorem Answered.mono {answer : Answer} (h : Answered s t job answer)
    (hs : s.history <:+ s'.history) (hg : s.shared.gate = some t → s'.shared.gate = some t) :
    Answered s' t job answer := by
  cases answer with
  | notNeeded => exact h
  | remembered epoch =>
    obtain ⟨question, h⟩ := h
    exact ⟨question, h.mono hs⟩
  | given question epoch =>
    obtain ⟨hgate, ctx, x, hx, h⟩ := h
    exact ⟨hg hgate, ctx, x, hs.subset hx, h⟩

theorem ReadBy.mono {listed : RememberedKey} (h : ReadBy s t env listed)
    (hs : s.history <:+ s'.history) : ReadBy s' t env listed := by
  obtain ⟨raw, key, h, hk⟩ := h
  exact ⟨raw, key, h.mono hs, hk⟩

end Mono

end LastpassSshAgent
