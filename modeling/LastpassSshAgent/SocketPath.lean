import LastpassSshAgent.Transitions.Runs
import Mathlib.Data.Nat.Bitwise
import Mathlib.Logic.Function.Basic

/-!
# Agents that bind one path

An agent looks at the path before it binds, takes away a socket nobody answers on, and takes
away whatever is there when it stops. None of that is atomic. What follows holds as far as
nothing but agents touches the path.
-/

namespace LastpassSshAgent.SocketPath

open Transitions

/-! ### The directory -/

/-- What `lstat` shows of the socket directory. -/
inductive Node where
  | symlink (dangling : Bool)
  | file
  | directory (uid mode : ℕ)
  deriving DecidableEq, Repr

inductive BindError where
  | socket (text : String)
  | io (text : String)
  deriving DecidableEq, Repr

def BindError.display : BindError → String
  | .socket text => s!"socket error: {text}"
  | .io text => text

structure Setup where
  path : String
  dir : String
  euid : ℕ
  deriving DecidableEq, Repr

namespace Setup

variable (setup : Setup)

def symlinkText : String := s!"socket directory {setup.dir} is a symlink — refusing"

def notADirectoryText : String := s!"socket directory {setup.dir} is not a directory"

def ownerText (uid : ℕ) : String :=
  s!"socket directory {setup.dir} is owned by uid {uid}, not us (uid {setup.euid})"

def octal (mode : ℕ) : String := String.ofList (Nat.toDigits 8 mode)

def accessibleText (mode : ℕ) : String :=
  s!"socket directory {setup.dir} is accessible by group/others (mode {octal mode}) — run: chmod 700 {setup.dir}"

def unusableText (mode : ℕ) : String :=
  s!"socket directory {setup.dir} is not usable by its owner (mode {octal mode}) — run: chmod 700 {setup.dir}"

def notASocketText : String :=
  s!"{setup.path} exists and is not a socket — refusing to remove it"

def alreadyListeningText : String :=
  s!"another agent is already listening on {setup.path}"

def cannotTellText (e : String) : String :=
  s!"cannot tell whether an agent is listening on {setup.path}: {e} — refusing to remove it"

def cannotBindText (e : String) : String := s!"cannot bind {setup.path}: {e}"

end Setup

/-- A directory that is not there yet is fine. -/
def validateDir (setup : Setup) : Option Node → Except BindError Unit
  | none => .ok ()
  | some (.symlink _) => .error (.socket setup.symlinkText)
  | some .file => .error (.socket setup.notADirectoryText)
  | some (.directory uid bits) =>
    let mode := bits &&& 0o7777
    if uid ≠ setup.euid then .error (.socket (setup.ownerText uid))
    else if mode &&& 0o077 ≠ 0 then .error (.socket (setup.accessibleText mode))
    else if mode &&& 0o700 ≠ 0o700 then .error (.socket (setup.unusableText mode))
    else .ok ()

/-- Only its owner, who is us, can reach into it. -/
def Private (setup : Setup) (dir : Option Node) : Prop :=
  ∃ mode, dir = some (.directory setup.euid mode) ∧ mode &&& 0o777 = 0o700

/-- What there is after `create_dir_all` and the mode set on it: nothing but a directory is
taken for one that somebody else made first. -/
def createDir (setup : Setup) : Option Node → Option Node
  | none => some (.directory setup.euid 0o700)
  | some (.directory uid _) => if uid = setup.euid then some (.directory uid 0o700) else none
  | some _ => none

def dirExists : Option Node → Bool
  | none => false
  | some (.symlink dangling) => !dangling
  | some _ => true

/-! ### The agents -/

inductive Entry where
  | socket (id mode : ℕ)
  | other
  deriving DecidableEq, Repr

/-- How far an agent has come. Once its socket is open it takes connections, until it drops
the listener; the guard goes last. -/
inductive Place where
  | idle
  | preparing
  | creating
  | checking
  | looking
  | connecting
  | removing
  | binding
  | opening (id : ℕ)
  | restricting (id : ℕ)
  | serving (id : ℕ)
  | leaving (id : ℕ)
  | finished (result : Except BindError Unit)

namespace Place

def listensOn : Place → Option ℕ
  | .restricting id => some id
  | .serving id => some id
  | _ => none

def bound : Place → Option ℕ
  | .opening id => some id
  | .restricting id => some id
  | .serving id => some id
  | .leaving id => some id
  | _ => none

/-- Between a start and serving, or between the shutdown and the end. -/
def inTransit : Place → Bool
  | .idle => false
  | .serving _ => false
  | .finished _ => false
  | _ => true

def inBind : Place → Bool
  | .leaving _ => false
  | place => place.inTransit

end Place

structure Host where
  dir : Option Node
  path : Option Entry
  /-- The sockets bound so far. -/
  next : ℕ
  place : ℕ → Place

namespace Host

variable (s : Host)

def moved (p : ℕ) (place : Place) : Host := { s with place := Function.update s.place p place }

def failed (p : ℕ) (e : BindError) : Host := s.moved p (.finished (.error e))

/-- Somebody takes connections on the socket that the path names. -/
def Answered : Prop := ∃ p id mode, (s.place p).listensOn = some id ∧ s.path = some (.socket id mode)

/-- No agent is on its way in or out. -/
def Quiet : Prop := ∀ p, (s.place p).inTransit = false

end Host

inductive Connect where
  | accepted
  | refused
  | failed (e : String)
  deriving DecidableEq, Repr

/-- A connection is made to who listens, and refused where there is a socket and nobody
does. It can fail otherwise at any time. -/
def Host.Meets (s : Host) : Connect → Prop
  | .accepted => s.Answered
  | .refused => (∃ id mode, s.path = some (.socket id mode)) ∧ ¬s.Answered
  | .failed _ => True

def existed (dir : Option Node) : Place := if dirExists dir then .checking else .creating

def checked (setup : Setup) (dir : Option Node) : Place :=
  match validateDir setup dir with
  | .ok () => .looking
  | .error e => .finished (.error e)

def looked (setup : Setup) : Option Entry → Place
  | none => .binding
  | some (.socket _ _) => .connecting
  | some .other => .finished (.error (.socket setup.notASocketText))

def connected (setup : Setup) : Connect → Place
  | .accepted => .finished (.error (.socket setup.alreadyListeningText))
  | .refused => .removing
  | .failed e => .finished (.error (.socket (setup.cannotTellText e)))

/-- The umask lets a new socket be its owner's alone. -/
def BIND_MODE : ℕ := 0o700

def SOCKET_MODE : ℕ := 0o600

def Entry.restricted : Entry → Entry
  | .socket id _ => .socket id SOCKET_MODE
  | .other => .other

inductive Act where
  | started (p : ℕ)
  | existed (p : ℕ)
  | created (p : ℕ)
  | checked (p : ℕ)
  | looked (p : ℕ)
  | connected (p : ℕ) (connect : Connect)
  | removed (p : ℕ) (gone : Entry)
  | bound (p : ℕ)
  | taken (p : ℕ) (e : String)
  | listened (p : ℕ)
  | restricted (p : ℕ)
  | failed (p : ℕ) (e : BindError)
  | stopped (p : ℕ)
  | unlinked (p : ℕ) (gone : Option Entry)
  | died (p : ℕ)
  deriving DecidableEq

/-- One step of one agent. A death leaves everything behind but the listener. -/
inductive Step (setup : Setup) : Host → Act → Host → Prop
  | started (s : Host) (p : ℕ) (h : s.place p = .idle) :
      Step setup s (.started p) (s.moved p .preparing)
  | existed (s : Host) (p : ℕ) (h : s.place p = .preparing) :
      Step setup s (.existed p) (s.moved p (existed s.dir))
  | created (s : Host) (p : ℕ) (node : Node) (h : s.place p = .creating)
      (hdir : createDir setup s.dir = some node) :
      Step setup s (.created p) { s.moved p .checking with dir := some node }
  | checked (s : Host) (p : ℕ) (h : s.place p = .checking) : Step setup s (.checked p)
      (s.moved p (checked setup s.dir))
  | looked (s : Host) (p : ℕ) (h : s.place p = .looking) :
      Step setup s (.looked p) (s.moved p (looked setup s.path))
  | connected (s : Host) (p : ℕ) (connect : Connect) (h : s.place p = .connecting)
      (hmeets : s.Meets connect) :
      Step setup s (.connected p connect) (s.moved p (connected setup connect))
  | removed (s : Host) (p : ℕ) (gone : Entry) (h : s.place p = .removing)
      (hpath : s.path = some gone) :
      Step setup s (.removed p gone) { s.moved p .binding with path := none }
  | bound (s : Host) (p : ℕ) (h : s.place p = .binding) (hpath : s.path = none) :
      Step setup s (.bound p) { s.moved p (.opening s.next) with
        path := some (.socket s.next BIND_MODE), next := s.next + 1 }
  | taken (s : Host) (p : ℕ) (e : String) (h : s.place p = .binding ∨ ∃ id, s.place p = .opening id) :
      Step setup s (.taken p e) (s.failed p (.socket (setup.cannotBindText e)))
  | listened (s : Host) (p id : ℕ) (h : s.place p = .opening id) :
      Step setup s (.listened p) (s.moved p (.restricting id))
  | restricted (s : Host) (p id : ℕ) (entry : Entry) (h : s.place p = .restricting id)
      (hpath : s.path = some entry) : Step setup s (.restricted p)
      { s.moved p (.serving id) with path := some entry.restricted }
  | failed (s : Host) (p : ℕ) (e : BindError) (h : (s.place p).inBind = true) :
      Step setup s (.failed p e) (s.failed p e)
  | stopped (s : Host) (p id : ℕ) (h : s.place p = .serving id) :
      Step setup s (.stopped p) (s.moved p (.leaving id))
  | unlinked (s : Host) (p id : ℕ) (h : s.place p = .leaving id) :
      Step setup s (.unlinked p s.path) { s.moved p (.finished (.ok ())) with path := none }
  | died (s : Host) (p : ℕ) : Step setup s (.died p) (s.moved p (.finished (.ok ())))

variable {setup : Setup} {s t : Host} {a : Act} {acts : List Act} {p q id mode : ℕ}

namespace Act

def agent : Act → ℕ
  | .started p => p
  | .existed p => p
  | .created p => p
  | .checked p => p
  | .looked p => p
  | .connected p _ => p
  | .removed p _ => p
  | .bound p => p
  | .taken p _ => p
  | .listened p => p
  | .restricted p => p
  | .failed p _ => p
  | .stopped p => p
  | .unlinked p _ => p
  | .died p => p

/-- The socket that the act takes from the path. -/
def unlinks : Act → Option ℕ
  | .removed _ (.socket id _) => some id
  | .unlinked _ (some (.socket id _)) => some id
  | _ => none

end Act

/-! ### What one step does -/

theorem checked_cases (setup : Setup) (dir : Option Node) :
    checked setup dir = .looking ∧ validateDir setup dir = .ok () ∨
      ∃ e, checked setup dir = .finished (.error e) := by
  unfold checked
  cases h : validateDir setup dir with
  | ok _ => exact .inl ⟨rfl, rfl⟩
  | error e => exact .inr ⟨e, rfl⟩

theorem existed_cases (dir : Option Node) :
    existed dir = .checking ∧ dir ≠ none ∨ existed dir = .creating := by
  unfold existed
  rcases dir with _ | ⟨_ | _⟩ | _ | _ <;> simp [dirExists]

theorem looked_cases (setup : Setup) (path : Option Entry) :
    looked setup path = .binding ∧ path = none ∨ looked setup path = .connecting ∨
      ∃ e, looked setup path = .finished (.error e) := by
  rcases path with _ | ⟨id, mode⟩ | _ <;> simp [looked]

theorem connected_cases (setup : Setup) (connect : Connect) :
    connected setup connect = .removing ∧ connect = .refused ∨
      ∃ e, connected setup connect = .finished (.error e) := by
  cases connect <;> simp [connected]

@[simp] theorem bound_existed (dir : Option Node) : (existed dir).bound = none := by
  rcases existed_cases dir with ⟨h, _⟩ | h <;> rw [h] <;> rfl

@[simp] theorem bound_checked (dir : Option Node) : (checked setup dir).bound = none := by
  rcases checked_cases setup dir with ⟨h, _⟩ | ⟨e, h⟩ <;> rw [h] <;> rfl

@[simp] theorem bound_looked (path : Option Entry) : (looked setup path).bound = none := by
  rcases looked_cases setup path with ⟨h, _⟩ | h | ⟨e, h⟩ <;> rw [h] <;> rfl

@[simp] theorem bound_connected (connect : Connect) : (connected setup connect).bound = none := by
  rcases connected_cases setup connect with ⟨h, _⟩ | ⟨e, h⟩ <;> rw [h] <;> rfl

theorem Place.bound_of_listensOn {place : Place} (h : place.listensOn = some id) :
    place.bound = some id := by
  cases place <;> first | exact h | cases h

theorem place_of_step (hstep : Step setup s a t) (hq : q ≠ a.agent) : t.place q = s.place q := by
  cases hstep <;> exact Function.update_of_ne hq _ _

theorem bound_of_step (hstep : Step setup s a t) (h : (t.place q).bound = some id) :
    (s.place q).bound = some id ∨ a = .bound q ∧ id = s.next := by
  by_cases hq : q = a.agent
  · subst hq
    cases hstep <;> simp [Host.moved, Host.failed, Act.agent] at h ⊢ <;> simp_all [Place.bound]
  · exact .inl (place_of_step hstep hq ▸ h)

theorem listensOn_of_step (hstep : Step setup s a t) (h : (t.place q).listensOn = some id) :
    (s.place q).listensOn = some id ∨ a = .listened q := by
  by_cases hq : q = a.agent
  · subst hq
    have hbound := Place.bound_of_listensOn h
    cases hstep <;> simp [Host.moved, Host.failed, Act.agent] at h hbound ⊢ <;>
      simp_all [Place.bound, Place.listensOn]
  · exact .inl (place_of_step hstep hq ▸ h)

theorem path_of_step (hstep : Step setup s a t) (h : t.path = some (.socket id mode)) :
    (∃ before, s.path = some (.socket id before) ∧ (mode = before ∨ mode = SOCKET_MODE)) ∨
      a = .bound a.agent ∧ id = s.next ∧ mode = BIND_MODE := by
  cases hstep <;> simp_all [Host.moved, Host.failed, Act.agent]
  case restricted p id' entry _ hpath =>
    cases entry <;> simp_all [Entry.restricted]

theorem path_kept (hstep : Step setup s a t) (h : s.path = some (.socket id mode)) :
    (∃ after, t.path = some (.socket id after)) ∨ a.unlinks = some id := by
  cases hstep <;> simp_all [Host.moved, Host.failed, Act.unlinks, Entry.restricted]

theorem next_of_step (hstep : Step setup s a t) : s.next ≤ t.next := by
  cases hstep <;> simp [Host.moved, Host.failed]

theorem bound_act (hstep : Step setup s (.bound p) t) : t.next = s.next + 1 := by
  cases hstep
  rfl

theorem removing_of_step (hstep : Step setup s a t) (h : t.place q = .removing) :
    s.place q = .removing ∨ a = .connected q .refused := by
  by_cases hq : q = a.agent
  · subst hq
    cases hstep <;> simp only [Host.moved, Host.failed, Act.agent, Function.update_self] at h ⊢ <;>
      grind [existed_cases, checked_cases, looked_cases, connected_cases]
  · exact .inl (place_of_step hstep hq ▸ h)

theorem serving_of_step (hstep : Step setup s a t) (h : t.place q = .serving id) :
    s.place q = .serving id ∨ a = .restricted q ∧ s.place q = .restricting id ∧
      ∃ entry : Entry, t.path = some entry.restricted := by
  by_cases hq : q = a.agent
  · subst hq
    cases hstep <;> simp only [Host.moved, Host.failed, Act.agent, Function.update_self] at h ⊢ <;>
      grind [existed_cases, checked_cases, looked_cases, connected_cases]
  · exact .inl (place_of_step hstep hq ▸ h)

/-- A refused connection leaves the path, and nobody took connections there. -/
theorem refused_act (hstep : Step setup s (.connected p .refused) t) :
    t.path = s.path ∧ ¬s.Answered := by
  cases hstep with
  | connected p _ h hmeets => exact ⟨rfl, hmeets.2⟩

/-! ### The directory's owner alone -/

namespace Place

/-- The directory has been looked at, and was as it should be. -/
def pastChecks : Place → Bool
  | .looking => true
  | .connecting => true
  | .removing => true
  | .binding => true
  | place => place.bound.isSome

end Place

theorem validateDir_eq_ok {node : Node} :
    validateDir setup (some node) = .ok () ↔ Private setup (some node) := by
  rcases node with ⟨dangling⟩ | _ | ⟨uid, bits⟩
  · exact ⟨nofun, nofun⟩
  · exact ⟨nofun, nofun⟩
  · have hmode : bits &&& 0o7777 &&& 0o077 = 0 ∧ bits &&& 0o7777 &&& 0o700 = 0o700 ↔
        bits &&& 0o777 = 0o700 := by
      rw [Nat.and_assoc, Nat.and_assoc, show (0o7777 &&& 0o077 : ℕ) = 0o077 from rfl,
        show (0o7777 &&& 0o700 : ℕ) = 0o700 from rfl]
      constructor
      · rintro ⟨hothers, howner⟩
        calc bits &&& 0o777 = bits &&& (0o700 ||| 0o077) := rfl
          _ = (bits &&& 0o700) ||| (bits &&& 0o077) := Nat.and_or_distrib_left _ _ _
          _ = 0o700 := by rw [hothers, howner]; rfl
      · intro h
        exact ⟨by rw [show (0o077 : ℕ) = 0o777 &&& 0o077 from rfl, ← Nat.and_assoc, h]; rfl,
          by rw [show (0o700 : ℕ) = 0o777 &&& 0o700 from rfl, ← Nat.and_assoc, h]; rfl⟩
    dsimp only [validateDir, Private]
    split_ifs with huid hothers howner <;> grind

theorem private_of_created {dir : Option Node} {node : Node}
    (h : createDir setup dir = some node) : Private setup (some node) := by
  rcases dir with _ | ⟨dangling⟩ | _ | ⟨uid, mode⟩
  · obtain rfl := Option.some.inj h
    exact ⟨0o700, rfl, rfl⟩
  · cases h
  · cases h
  · dsimp only [createDir] at h
    split_ifs at h with huid
    obtain rfl := Option.some.inj h
    exact ⟨0o700, by rw [huid], rfl⟩

theorem dir_of_step (hstep : Step setup s a t) : t.dir = s.dir ∨ Private setup t.dir := by
  cases hstep with
  | created p node _ hdir => exact .inr (private_of_created hdir)
  | _ => exact .inl rfl

theorem Private.ne_none {dir : Option Node} (h : Private setup dir) : dir ≠ none := by
  obtain ⟨mode, rfl, _⟩ := h
  exact Option.some_ne_none _

theorem checking_of_step (hstep : Step setup s a t) (h : t.place q = .checking) :
    s.place q = .checking ∨ t.dir ≠ none := by
  by_cases hq : q = a.agent
  · subst hq
    cases hstep <;> simp only [Host.moved, Host.failed, Act.agent, Function.update_self] at h ⊢ <;>
      grind [existed_cases, checked_cases, looked_cases, connected_cases]
  · exact .inl (place_of_step hstep hq ▸ h)

theorem pastChecks_of_step (hstep : Step setup s a t) (h : (t.place q).pastChecks = true) :
    (s.place q).pastChecks = true ∨
      s.place q = .checking ∧ validateDir setup s.dir = .ok () ∧ t.dir = s.dir := by
  by_cases hq : q = a.agent
  · subst hq
    cases hstep <;> simp only [Host.moved, Host.failed, Act.agent, Function.update_self] at h ⊢ <;>
      grind [existed_cases, checked_cases, looked_cases, connected_cases, Place.pastChecks,
        Place.bound]
  · exact .inl (place_of_step hstep hq ▸ h)

/-! ### Whatever falls between the steps -/

/-- Who has taken a socket from the path has bound nothing himself. -/
theorem unlinks_act (hstep : Step setup s a t) (h : a.unlinks = some id) :
    (t.place a.agent).bound = none := by
  cases hstep <;> simp_all [Act.unlinks, Act.agent, Host.moved, Place.bound]

theorem path_of_bound (hstep : Step setup s (.bound p) t) :
    t.path = some (.socket s.next BIND_MODE) := by
  cases hstep
  rfl

structure Sound (setup : Setup) (acts : List Act) (s : Host) : Prop where
  checking : ∀ p, s.place p = .checking → s.dir ≠ none
  past : ∀ p, (s.place p).pastChecks = true → Private setup s.dir
  pathFresh : ∀ id mode, s.path = some (.socket id mode) → id < s.next
  fresh : ∀ p id, (s.place p).bound = some id → id < s.next
  single : ∀ p q id, (s.place p).bound = some id → (s.place q).bound = some id → p = q
  mode : ∀ p id mode, (s.place p).bound = some id → s.path = some (.socket id mode) →
    mode = BIND_MODE ∨ mode = SOCKET_MODE
  restricted : ∀ p id mode, s.place p = .serving id → s.path = some (.socket id mode) →
    mode = SOCKET_MODE
  kept : ∀ p id, (s.place p).bound = some id → (∃ mode, s.path = some (.socket id mode)) ∨
    ∃ a ∈ acts, a.unlinks = some id ∧ a.agent ≠ p
  stale : ∀ p, s.place p = .removing → ∃ front back,
    acts = front ++ .connected p .refused :: back ∧ ∀ q id mode,
      (s.place q).listensOn = some id → s.path = some (.socket id mode) → .listened q ∈ back

/-- No agent has been started, and the sockets to come are not there yet. -/
structure Fresh (s : Host) : Prop where
  idle : ∀ p, s.place p = .idle
  pathFresh : ∀ id mode, s.path = some (.socket id mode) → id < s.next

theorem Fresh.sound (h : Fresh s) : Sound setup [] s where
  checking p hp := absurd (h.idle p) (by rw [hp]; simp)
  past p hp := by simp [h.idle p, Place.pastChecks, Place.bound] at hp
  pathFresh := h.pathFresh
  fresh p id hp := by simp [h.idle p, Place.bound] at hp
  single p q id hp := by simp [h.idle p, Place.bound] at hp
  mode p id mode hp := by simp [h.idle p, Place.bound] at hp
  restricted p id mode hp := absurd (h.idle p) (by rw [hp]; simp)
  kept p id hp := by simp [h.idle p, Place.bound] at hp
  stale p hp := absurd (h.idle p) (by rw [hp]; simp)

namespace Sound

variable (h : Sound setup acts s) (hstep : Step setup s a t)
include h hstep

theorem path_of_bound_id (hbound : (s.place p).bound = some id)
    (hpath : t.path = some (.socket id mode)) :
    ∃ before, s.path = some (.socket id before) ∧ (mode = before ∨ mode = SOCKET_MODE) := by
  rcases path_of_step hstep hpath with hbefore | ⟨_, hid, _⟩
  · exact hbefore
  · exact absurd (h.fresh p id hbound) (by omega)

theorem checking_step (hp : t.place p = .checking) : t.dir ≠ none := by
  rcases checking_of_step hstep hp with hbefore | hdir
  · rcases dir_of_step hstep with hdir | hdir
    · exact hdir ▸ h.checking p hbefore
    · exact hdir.ne_none
  · exact hdir

theorem past_step (hp : (t.place p).pastChecks = true) : Private setup t.dir := by
  rcases dir_of_step hstep with hdir | hdir
  · rw [hdir]
    rcases pastChecks_of_step hstep hp with hbefore | ⟨hchecking, hvalid, _⟩
    · exact h.past p hbefore
    · obtain ⟨node, hnode⟩ := Option.ne_none_iff_exists'.mp (h.checking p hchecking)
      rw [hnode] at hvalid ⊢
      exact validateDir_eq_ok.mp hvalid
  · exact hdir

theorem pathFresh_step (hpath : t.path = some (.socket id mode)) : id < t.next := by
  rcases path_of_step hstep hpath with ⟨before, hbefore, _⟩ | ⟨ha, hid, _⟩
  · exact (h.pathFresh id before hbefore).trans_le (next_of_step hstep)
  · have hact : Step setup s (.bound a.agent) t := ha ▸ hstep
    rw [hid, bound_act hact]
    exact Nat.lt_succ_self _

theorem fresh_step (hp : (t.place p).bound = some id) : id < t.next := by
  rcases bound_of_step hstep hp with hbefore | ⟨ha, hid⟩
  · exact (h.fresh p id hbefore).trans_le (next_of_step hstep)
  · have hact : Step setup s (.bound p) t := ha ▸ hstep
    rw [hid, bound_act hact]
    exact Nat.lt_succ_self _

theorem single_step (hp : (t.place p).bound = some id) (hq : (t.place q).bound = some id) :
    p = q := by
  rcases bound_of_step hstep hp with hp | ⟨hap, hidp⟩ <;>
    rcases bound_of_step hstep hq with hq | ⟨haq, hidq⟩
  · exact h.single p q id hp hq
  · exact absurd (h.fresh p id hp) (by omega)
  · exact absurd (h.fresh q id hq) (by omega)
  · exact Act.bound.inj (hap.symm.trans haq)

theorem mode_step (hp : (t.place p).bound = some id) (hpath : t.path = some (.socket id mode)) :
    mode = BIND_MODE ∨ mode = SOCKET_MODE := by
  rcases path_of_step hstep hpath with ⟨before, hbefore, hmode⟩ | ⟨_, _, hmode⟩
  · rcases bound_of_step hstep hp with hp | ⟨_, hid⟩
    · rcases hmode with rfl | rfl
      · exact h.mode p id mode hp hbefore
      · exact .inr rfl
    · exact absurd (h.pathFresh id before hbefore) (by omega)
  · exact .inl hmode

theorem restricted_step (hp : t.place p = .serving id) (hpath : t.path = some (.socket id mode)) :
    mode = SOCKET_MODE := by
  rcases serving_of_step hstep hp with hp | ⟨_, _, entry, hentry⟩
  · obtain ⟨before, hbefore, hmode⟩ := h.path_of_bound_id hstep (by rw [hp]; rfl) hpath
    rcases hmode with rfl | rfl
    · exact h.restricted p id mode hp hbefore
    · rfl
  · rw [hentry] at hpath
    cases entry with
    | socket id' mode' => exact (Entry.socket.inj (Option.some.inj hpath)).2.symm
    | other => cases hpath

theorem kept_step (hp : (t.place p).bound = some id) :
    (∃ mode, t.path = some (.socket id mode)) ∨
      ∃ b ∈ acts ++ [a], b.unlinks = some id ∧ b.agent ≠ p := by
  rcases bound_of_step hstep hp with hbefore | ⟨ha, hid⟩
  · rcases h.kept p id hbefore with ⟨mode, hpath⟩ | ⟨b, hb, hunlinks⟩
    · rcases path_kept hstep hpath with hafter | hunlinks
      · exact .inl hafter
      · refine .inr ⟨a, by simp, hunlinks, ?_⟩
        rintro rfl
        rw [unlinks_act hstep hunlinks] at hp
        cases hp
    · exact .inr ⟨b, List.mem_append_left _ hb, hunlinks⟩
  · subst ha hid
    exact .inl ⟨_, path_of_bound hstep⟩

theorem stale_step (hp : t.place p = .removing) : ∃ front back,
    acts ++ [a] = front ++ .connected p .refused :: back ∧ ∀ q id mode,
      (t.place q).listensOn = some id → t.path = some (.socket id mode) → .listened q ∈ back := by
  rcases removing_of_step hstep hp with hbefore | rfl
  · obtain ⟨front, back, hacts, hlater⟩ := h.stale p hbefore
    refine ⟨front, back ++ [a], by rw [hacts, List.append_assoc, List.cons_append], ?_⟩
    intro q id mode hq hpath
    rcases listensOn_of_step hstep hq with hq | rfl
    · obtain ⟨before, hbefore, _⟩ :=
        h.path_of_bound_id hstep (Place.bound_of_listensOn hq) hpath
      exact List.mem_append_left _ (hlater q id before hq hbefore)
    · exact List.mem_append_right _ (List.mem_singleton_self _)
  · obtain ⟨hsame, hnobody⟩ := refused_act hstep
    refine ⟨acts, [], rfl, fun q id mode hq hpath => absurd ?_ hnobody⟩
    rcases listensOn_of_step hstep hq with hq | ha
    · exact ⟨q, id, mode, hq, hsame ▸ hpath⟩
    · cases ha

theorem step : Sound setup (acts ++ [a]) t where
  checking _ := h.checking_step hstep
  past _ := h.past_step hstep
  pathFresh _ _ := h.pathFresh_step hstep
  fresh _ _ := h.fresh_step hstep
  single _ _ _ := h.single_step hstep
  mode _ _ _ := h.mode_step hstep
  restricted _ _ _ := h.restricted_step hstep
  kept _ _ := h.kept_step hstep
  stale _ := h.stale_step hstep

end Sound

theorem Fresh.run (hs : Fresh s) (h : Runs (Step setup) s acts t) : Sound setup acts t :=
  h.invariant (fun acts t => Sound setup acts t) hs.sound
    fun _ _ _ _ h hstep => h.step hstep

/-- How a socket is taken from the path while its agent takes connections on it. -/
inductive LostTo (acts : List Act) (s : Host) (q id : ℕ) : Act → Prop
  /-- To a start whose connection had been refused before. -/
  | stale (p : ℕ) (gone : Entry) (front back : List Act)
      (hacts : acts = front ++ .connected p .refused :: back) (hlater : .listened q ∈ back) :
      LostTo acts s q id (.removed p gone)
  /-- To the guard of another agent, whose own socket had been taken from the path before, by
  the agent that now listens perhaps. -/
  | guard (p mine : ℕ) (gone : Option Entry) (b : Act) (hleaving : s.place p = .leaving mine)
      (hne : mine ≠ id) (hb : b ∈ acts) (hunlinks : b.unlinks = some mine) (hagent : b.agent ≠ p) :
      LostTo acts s q id (.unlinked p gone)

theorem Sound.lostTo (h : Sound setup acts s) (hstep : Step setup s a t)
    (hq : (s.place q).listensOn = some id) (hunlinks : a.unlinks = some id) :
    LostTo acts s q id a := by
  cases hstep with
  | removed p gone hplace hpath =>
    obtain ⟨front, back, hacts, hlater⟩ := h.stale p hplace
    cases gone with
    | socket id' mode =>
      obtain rfl := Option.some.inj hunlinks
      exact .stale p _ front back hacts (hlater q id' mode hq hpath)
    | other => cases hunlinks
  | unlinked p mine hplace =>
    have hmine : (s.place p).bound = some mine := by rw [hplace]; rfl
    have hne : mine ≠ id := by
      rintro rfl
      obtain rfl := h.single p q mine hmine (Place.bound_of_listensOn hq)
      rw [hplace] at hq
      cases hq
    rcases h.kept p mine hmine with ⟨mode, hpath⟩ | ⟨b, hb, htaken, hagent⟩
    · rw [hpath] at hunlinks
      exact absurd (Option.some.inj hunlinks) hne
    · exact .guard p mine _ b hplace hne hb htaken hagent
  | _ => cases hunlinks

/-- In whatever order the steps of any number of agents fall: an agent serves in a directory
that is its owner's alone, on a socket that, where the path names it, is its owner's alone,
and the path stops naming it in two ways only. -/
theorem lost_to_others (hs : Fresh s) (h : Runs (Step setup) s acts t) :
    (∀ p id, t.place p = .serving id → Private setup t.dir ∧
      ∀ mode, t.path = some (.socket id mode) → mode = SOCKET_MODE) ∧
    (∀ p id mode, (t.place p).listensOn = some id → t.path = some (.socket id mode) →
      mode = BIND_MODE ∨ mode = SOCKET_MODE) ∧
    ∀ q id a u, (t.place q).listensOn = some id → Step setup t a u → a.unlinks = some id →
      LostTo acts t q id a := by
  have hsound := hs.run h
  refine ⟨fun p id hp => ⟨hsound.past p (by rw [hp]; rfl), ?_⟩, ?_, ?_⟩
  · exact fun mode => hsound.restricted p id mode hp
  · exact fun p id mode hp => hsound.mode p id mode (Place.bound_of_listensOn hp)
  · exact fun q id a u hq hstep => hsound.lostTo hstep hq

def sample : Setup := ⟨"/home/me/.lpass/agent.sock", "/home/me/.lpass", 501⟩

def quietHost : Host := ⟨none, none, 0, fun _ => .idle⟩

theorem fresh_quietHost : Fresh quietHost where
  idle _ := rfl
  pathFresh _ _ h := nomatch h

/-- Agent 1 starts while agent 0 has dropped its listener, and loses its socket to the guard. -/
theorem lost_to_others_stopping : ∃ acts t u, Runs (Step sample) quietHost acts t ∧
    t.place 1 = .serving 1 ∧ t.path = some (.socket 1 SOCKET_MODE) ∧
    Step sample t (.unlinked 0 t.path) u ∧ u.path = none ∧
    LostTo acts t 1 1 (.unlinked 0 t.path) := by
  have hstart : Runs (Step sample) quietHost [] quietHost := .start
  have hfirst := ((((((((hstart.step (.started _ 0 rfl)).step (.existed _ 0 rfl)).step
    (.created _ 0 _ rfl rfl)).step (.checked _ 0 rfl)).step (.looked _ 0 rfl)).step
    (.bound _ 0 rfl rfl)).step (.listened _ 0 0 rfl)).step (.restricted _ 0 0 _ rfl rfl)).step
    (.stopped _ 0 0 rfl)
  have hlooked := (((hfirst.step (.started _ 1 rfl)).step (.existed _ 1 rfl)).step
    (.checked _ 1 rfl)).step (.looked _ 1 rfl)
  have hserving := ((((hlooked.step (.connected _ 1 .refused rfl
    ⟨⟨0, _, rfl⟩, by rintro ⟨_ | _ | p, id, mode, hp, _⟩ <;> cases hp⟩)).step
    (.removed _ 1 _ rfl rfl)).step (.bound _ 1 rfl rfl)).step (.listened _ 1 1 rfl)).step
    (.restricted _ 1 1 _ rfl rfl)
  exact ⟨_, _, _, hserving, rfl, rfl, .unlinked _ 0 0 rfl, rfl,
    (lost_to_others fresh_quietHost hserving).2.2 1 1 _ _ rfl (.unlinked _ 0 0 rfl) rfl⟩

end LastpassSshAgent.SocketPath
