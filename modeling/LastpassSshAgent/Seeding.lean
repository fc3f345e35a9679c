import LastpassSshAgent.LpassCli
import LastpassSshAgent.Transitions.Runs

/-!
# Keeping the master password only once it has opened the vault

`store-master-password` locks the vault, sees that it is locked, asks, and keeps the answer
if the vault opens with it. Shells open and lock the vault, and its password is changed, at
any point in between.
-/

namespace LastpassSshAgent.Seeding

open Transitions

structure Vault where
  password : Bytes
  opened : Bool
  deriving DecidableEq, Repr

def listed (fed : Option Bytes) (run : LpassRun) : Except LpassError (List ItemSummary) :=
  LpassCli.parsed (CmdOutput.of fed.isSome MAX_LISTING_BYTES run)

inductive Stage where
  | connecting
  | locking
  | probing
  | asking
  | attempting (secret : Bytes)
  | setting (secret : Bytes)
  | returned (result : Except Error Unit)

structure Seed where
  stage : Stage
  vault : Vault

inductive SeedAct where
  | connected (running : Bool)
  | dropped (done : Bool)
  | probed (run : LpassRun)
  | typed (answer : Except PromptError Bytes)
  | attempted (run : LpassRun)
  | set (secret : Bytes) (result : Except String Unit)
  | failed (e : Error)
  | opens
  | locks
  | changes (password : Bytes)
  deriving DecidableEq

/-- What others do to the vault. -/
def Vault.after (vault : Vault) : SeedAct → Vault
  | .opens => { vault with opened := true }
  | .locks => { vault with opened := false }
  | .changes password => { vault with password }
  | _ => vault

structure Setup where
  source : MasterPassword
  socketPath : String

def agentRunningText (socketPath : String) : String :=
  s!"an agent is running on {socketPath} — stop it first (`brew services stop lastpass-ssh-agent`), so nothing else can prompt while this does"

def nothingToStoreText : String := "nothing to store: set master_password = \"touchid\" in the config first"

def cannotLockText : String :=
  "could not lock the vault, so the password cannot be checked — nothing was kept"

def stillOpenText : String :=
  "the vault is still open, so the password cannot be checked — nothing was kept"

def connect (setup : Setup) (running : Bool) : Stage :=
  if running then .returned (.error (.configInvalid (agentRunningText setup.socketPath)))
  else if setup.source ≠ .touchId then .returned (.error (.configInvalid nothingToStoreText))
  else .locking

def dropped (done : Bool) : Stage :=
  if done then .probing else .returned (.error (.state cannotLockText))

/-- Seen to be locked, not assumed. -/
def probed (run : LpassRun) : Stage :=
  match listed none run with
  | .error .locked => .asking
  | .ok _ => .returned (.error (.state stillOpenText))
  | .error e => .returned (.error (.lpass e))

def typed : Except PromptError Bytes → Stage
  | .ok secret => .attempting secret
  | .error e => .returned (.error (.configInvalid e.display))

def attempted (secret : Bytes) (run : LpassRun) : Stage :=
  match listed (some secret) run with
  | .ok _ => .setting secret
  | .error e => .returned (.error (.configInvalid
      s!"that master password did not open the vault, so nothing was kept: {e.display}"))

def stored (result : Except String Unit) : Stage :=
  .returned (result.mapError fun e => .configInvalid s!"could not store the master password: {e}")

def Stage.isReturned : Stage → Bool
  | .returned _ => true
  | _ => false

/-- One step of the command, or of somebody else. What `lpass` answers depends on the vault
as it is at that moment. -/
inductive SeedStep (answers : Vault → Option Bytes → LpassRun → Prop) (setup : Setup) :
    Seed → SeedAct → Seed → Prop
  | connected (v : Vault) (running : Bool) :
      SeedStep answers setup ⟨.connecting, v⟩ (.connected running) ⟨connect setup running, v⟩
  | dropped (v : Vault) (done : Bool) :
      SeedStep answers setup ⟨.locking, v⟩ (.dropped done) ⟨dropped done, v⟩
  | probed (v : Vault) (run : LpassRun) (h : answers v none run) :
      SeedStep answers setup ⟨.probing, v⟩ (.probed run) ⟨probed run, v⟩
  | typed (v : Vault) (answer : Except PromptError Bytes) :
      SeedStep answers setup ⟨.asking, v⟩ (.typed answer) ⟨typed answer, v⟩
  | attempted (v : Vault) (secret : Bytes) (run : LpassRun) (h : answers v (some secret) run) :
      SeedStep answers setup ⟨.attempting secret, v⟩ (.attempted run) ⟨attempted secret run, v⟩
  | set (v : Vault) (secret : Bytes) (result : Except String Unit) :
      SeedStep answers setup ⟨.setting secret, v⟩ (.set secret result) ⟨stored result, v⟩
  | failed (v : Vault) (stage : Stage) (e : Error) (h : stage.isReturned = false) :
      SeedStep answers setup ⟨stage, v⟩ (.failed e) ⟨.returned (.error e), v⟩
  | opens (s : Seed) : SeedStep answers setup s .opens { s with vault := s.vault.after .opens }
  | locks (s : Seed) : SeedStep answers setup s .locks { s with vault := s.vault.after .locks }
  | changes (s : Seed) (password : Bytes) : SeedStep answers setup s (.changes password)
      { s with vault := s.vault.after (.changes password) }

/-- What is relied on of `lpass`: it succeeds only with the vault open or with its password,
and misses the key only while the vault is locked. -/
structure Honest (answers : Vault → Option Bytes → LpassRun → Prop) : Prop where
  succeeds (v : Vault) (fed : Option Bytes) (stdout stderr : Bytes) :
    answers v fed (.exited (some 0) stdout stderr) → v.opened = true ∨ fed = some v.password
  missesKey (v : Vault) (code : Option ℤ) (stdout stderr : Bytes) :
    answers v none (.exited code stdout stderr) →
      containsText (CmdOutput.diagnostics stderr) CmdOutput.noKeyText = true → v.opened = false

/-! ### What a listing tells -/

theorem exited_of_listed {fed : Option Bytes} {run : LpassRun} {items : List ItemSummary}
    (h : listed fed run = .ok items) : ∃ stdout stderr, run = .exited (some 0) stdout stderr := by
  cases run with
  | spawn why => cases h
  | timeout => cases h
  | exited code stdout stderr =>
    dsimp only [listed, CmdOutput.of] at h
    split_ifs at h
    · cases h
    · dsimp only [LpassCli.parsed] at h
      split_ifs at h with hsuccess
      rw [beq_iff_eq] at hsuccess
      exact ⟨stdout, stderr, by rw [hsuccess]⟩

theorem classifyItem_none (out : CmdOutput) :
    out.classifyItem none = .commandFailed out.code out.stderr := rfl

theorem classify_eq_locked {out : CmdOutput} (h : out.classify none = .locked) :
    containsText out.stderr CmdOutput.noKeyText = true ∧ out.fed = false := by
  rw [CmdOutput.classify, classifyItem_none] at h
  split_ifs at h with hrejected hkey hfed
  exact ⟨hkey, Bool.eq_false_iff.mpr hfed⟩

theorem locked_of_listed {run : LpassRun} (h : listed none run = .error .locked) :
    ∃ code stdout stderr, run = .exited code stdout stderr ∧
      containsText (CmdOutput.diagnostics stderr) CmdOutput.noKeyText = true := by
  cases run with
  | spawn why => cases h
  | timeout => cases h
  | exited code stdout stderr =>
    dsimp only [listed, CmdOutput.of] at h
    split_ifs at h
    · cases h
    · dsimp only [LpassCli.parsed] at h
      split_ifs at h
      obtain ⟨hkey, -⟩ := classify_eq_locked (Except.error.inj h)
      exact ⟨code, stdout, stderr, rfl, hkey⟩

/-! ### Every run -/

variable {answers : Vault → Option Bytes → LpassRun → Prop} {setup : Setup} {s t : Seed}
  {a : SeedAct} {acts front middle : List SeedAct} {v : Vault} {secret : Bytes}

def vaultAfter (v : Vault) (acts : List SeedAct) : Vault := acts.foldl Vault.after v

theorem vaultAfter_concat (v : Vault) (acts : List SeedAct) (a : SeedAct) :
    vaultAfter v (acts ++ [a]) = (vaultAfter v acts).after a := List.foldl_concat _ _ a acts

theorem vault_of_step (h : SeedStep answers setup s a t) : t.vault = s.vault.after a := by
  cases h <;> rfl

/-- Locking and the look at the lock came first, and nobody has opened the vault since. -/
def SeenLocked (front middle : List SeedAct) (run : LpassRun) (opened : Bool) : Prop :=
  .connected false ∈ front ∧ .dropped true ∈ front ∧ listed none run = .error .locked ∧
    (.opens ∉ middle → opened = false)

/-- The acts that make keeping a secret right. -/
def Checked (v : Vault) (acts : List SeedAct) (secret : Bytes) : Prop :=
  ∃ front middle back run run', acts = front ++ .probed run :: middle ++ .attempted run' :: back ∧
    .connected false ∈ front ∧ .dropped true ∈ front ∧ listed none run = .error .locked ∧
    .typed (.ok secret) ∈ middle ∧
    (.opens ∉ middle → (vaultAfter v (front ++ .probed run :: middle)).password = secret)

/-- The acts that lead to each stage. -/
def At (v : Vault) (acts : List SeedAct) (s : Seed) : Prop :=
  match s.stage with
  | .connecting | .returned _ => True
  | .locking => .connected false ∈ acts
  | .probing => .connected false ∈ acts ∧ .dropped true ∈ acts
  | .asking => ∃ front middle run, acts = front ++ .probed run :: middle ∧
      SeenLocked front middle run s.vault.opened
  | .attempting secret => ∃ front middle run, acts = front ++ .probed run :: middle ∧
      SeenLocked front middle run s.vault.opened ∧ .typed (.ok secret) ∈ middle
  | .setting secret => Checked v acts secret

theorem Checked.concat (h : Checked v acts secret) (a : SeedAct) : Checked v (acts ++ [a]) secret := by
  obtain ⟨front, middle, back, run, run', rfl, hrest⟩ := h
  exact ⟨front, middle, back ++ [a], run, run', by simp, hrest⟩

theorem SeenLocked.concat {run : LpassRun} (h : SeenLocked front middle run v.opened)
    (a : SeedAct) : SeenLocked front (middle ++ [a]) run (v.after a).opened := by
  obtain ⟨hconnected, hdropped, hlocked, hclosed⟩ := h
  refine ⟨hconnected, hdropped, hlocked, fun hmem => ?_⟩
  rw [List.mem_append, not_or, List.mem_singleton] at hmem
  cases a with
  | opens => exact absurd rfl hmem.2
  | locks => rfl
  | _ => exact hclosed hmem.1

theorem At.concat (h : At v acts s) (a : SeedAct) :
    At v (acts ++ [a]) { s with vault := s.vault.after a } := by
  obtain ⟨stage, vault⟩ := s
  cases stage with
  | connecting => trivial
  | returned result => trivial
  | locking => exact List.mem_append_left _ h
  | probing => exact ⟨List.mem_append_left _ h.1, List.mem_append_left _ h.2⟩
  | asking =>
    obtain ⟨front, middle, run, rfl, hseen⟩ := h
    exact ⟨front, middle ++ [a], run, by simp, hseen.concat a⟩
  | attempting secret =>
    obtain ⟨front, middle, run, rfl, hseen, htyped⟩ := h
    exact ⟨front, middle ++ [a], run, by simp, hseen.concat a, List.mem_append_left _ htyped⟩
  | setting secret => exact Checked.concat h a

theorem at_returned (stage : Stage) (h : stage.isReturned = true) (vault : Vault) :
    At v acts ⟨stage, vault⟩ := by
  cases stage with
  | returned result => trivial
  | _ => cases h

theorem at_connect (running : Bool) (vault : Vault) :
    At v (acts ++ [.connected running]) ⟨connect setup running, vault⟩ := by
  rw [connect]
  split_ifs with hrunning htouch
  · trivial
  · trivial
  · show SeedAct.connected false ∈ acts ++ [.connected running]
    rw [Bool.not_eq_true] at hrunning
    simp [hrunning]

theorem at_dropped (h : .connected false ∈ acts) (done : Bool) (vault : Vault) :
    At v (acts ++ [.dropped done]) ⟨dropped done, vault⟩ := by
  rw [dropped]
  split_ifs with hdone
  · show SeedAct.connected false ∈ acts ++ [.dropped done] ∧ SeedAct.dropped true ∈ acts ++ [.dropped done]
    simp [h, hdone]
  · trivial

theorem at_probed (hhonest : Honest answers) {run : LpassRun} {vault : Vault}
    (hanswer : answers vault none run) (hconnected : .connected false ∈ acts)
    (hdropped : .dropped true ∈ acts) : At v (acts ++ [.probed run]) ⟨probed run, vault⟩ := by
  unfold probed
  cases hlisted : listed none run with
  | ok items => trivial
  | error e =>
    by_cases he : e = .locked
    · subst he
      refine ⟨acts, [], run, rfl, hconnected, hdropped, hlisted, fun _ => ?_⟩
      obtain ⟨code, stdout, stderr, rfl, hkey⟩ := locked_of_listed hlisted
      exact hhonest.missesKey vault code stdout stderr hanswer hkey
    · refine at_returned _ ?_ vault
      cases e with
      | locked => exact absurd rfl he
      | _ => rfl

theorem at_typed {vault : Vault} (h : At v acts ⟨.asking, vault⟩) (answer : Except PromptError Bytes) :
    At v (acts ++ [.typed answer]) ⟨typed answer, vault⟩ := by
  cases answer with
  | error e => trivial
  | ok secret =>
    obtain ⟨front, middle, run, rfl, hseen⟩ := h
    have hseen' := hseen.concat (.typed (.ok secret))
    exact ⟨front, middle ++ [.typed (.ok secret)], run, by simp, hseen', by simp⟩

/-- With the vault locked all along, only its password opens it. -/
theorem at_attempted (hhonest : Honest answers) {run : LpassRun} {vault : Vault}
    (hanswer : answers vault (some secret) run) (hvault : vault = vaultAfter v acts)
    (h : At v acts ⟨.attempting secret, vault⟩) :
    At v (acts ++ [.attempted run]) ⟨attempted secret run, vault⟩ := by
  unfold attempted
  cases hlisted : listed (some secret) run with
  | error e => trivial
  | ok items =>
    obtain ⟨front, middle, run', rfl, ⟨hconnected, hdropped, hlocked, hclosed⟩, htyped⟩ := h
    refine ⟨front, middle, [], run', run, rfl, hconnected, hdropped, hlocked, htyped,
      fun hmem => ?_⟩
    obtain ⟨stdout, stderr, rfl⟩ := exited_of_listed hlisted
    rcases hhonest.succeeds vault (some secret) stdout stderr hanswer with hopened | hsecret
    · exact absurd (hopened.symm.trans (hclosed hmem)) Bool.noConfusion
    · rw [← hvault]
      exact (Option.some.inj hsecret).symm

theorem At.step (hhonest : Honest answers) (h : At v acts s) (hvault : s.vault = vaultAfter v acts)
    (hstep : SeedStep answers setup s a t) : At v (acts ++ [a]) t := by
  cases hstep with
  | connected vault running => exact at_connect running vault
  | dropped vault done => exact at_dropped h done vault
  | probed vault run hanswer => exact at_probed hhonest hanswer h.1 h.2
  | typed vault answer => exact at_typed h answer
  | attempted vault secret run hanswer => exact at_attempted hhonest hanswer hvault h
  | set vault secret result => trivial
  | failed vault stage e hstage => trivial
  | opens s => exact h.concat .opens
  | locks s => exact h.concat .locks
  | changes s password => exact h.concat (.changes password)

/-- Only what is checked is set. -/
theorem checked_of_set {result : Except String Unit} (h : At v acts s)
    (hstep : SeedStep answers setup s (.set secret result) t) : Checked v acts secret := by
  cases hstep
  exact h

/-- Whatever else happens to the vault, the command keeps a secret only after it found no
agent running and the vault locked, was given it since, and opened the vault with it: and
unless a shell opened the vault between the two looks, it is the vault's password. -/
theorem sets_checked_only (hhonest : Honest answers) (setup : Setup) (v : Vault)
    (h : Runs (SeedStep answers setup) ⟨.connecting, v⟩ acts s) (secret : Bytes)
    (result : Except String Unit) (hset : .set secret result ∈ acts) : Checked v acts secret := by
  have hall : (At v acts s ∧ s.vault = vaultAfter v acts) ∧
      ∀ secret result, .set secret result ∈ acts → Checked v acts secret := by
    refine h.invariant (fun acts s => (At v acts s ∧ s.vault = vaultAfter v acts) ∧
      ∀ secret result, .set secret result ∈ acts → Checked v acts secret) ?_ ?_
    · exact ⟨⟨trivial, rfl⟩, fun _ _ hmem => absurd hmem List.not_mem_nil⟩
    · rintro acts s a t ⟨⟨hat, hvault⟩, hsets⟩ hstep
      refine ⟨⟨hat.step hhonest hvault hstep, ?_⟩, fun secret result hmem => ?_⟩
      · rw [vault_of_step hstep, vaultAfter_concat, hvault]
      · rcases List.mem_append.mp hmem with hmem | hlast
        · exact (hsets secret result hmem).concat a
        · obtain rfl := List.mem_singleton.mp hlast
          exact (checked_of_set hat hstep).concat _
  exact hall.2 secret result hset

/-- A vault that opens with its password and says so otherwise. -/
def plainAnswers (v : Vault) (fed : Option Bytes) (run : LpassRun) : Prop :=
  run = if v.opened = true ∨ fed = some v.password then .exited (some 0) [] []
    else .exited (some 1) [] (utf8 CmdOutput.noKeyText)

theorem honest_plainAnswers : Honest plainAnswers where
  succeeds v fed stdout stderr h := by
    unfold plainAnswers at h
    split_ifs at h with hopens
    · exact hopens
    · cases h
  missesKey v code stdout stderr h hkey := by
    refine Bool.eq_false_iff.mpr fun hopened => ?_
    rw [plainAnswers, if_pos (.inl hopened)] at h
    cases h
    have hsilent : containsText (CmdOutput.diagnostics []) CmdOutput.noKeyText = false := by
      decide +kernel
    exact Bool.false_ne_true (hsilent.symm.trans hkey)

def plainActs : List SeedAct :=
  [.connected false, .dropped true, .probed (.exited (some 1) [] (utf8 CmdOutput.noKeyText)),
    .typed (.ok [112]), .attempted (.exited (some 0) [] []), .set [112] (.ok ())]

theorem runs_plainActs : Runs (SeedStep plainAnswers ⟨.touchId, "agent.sock"⟩)
    ⟨.connecting, ⟨[112], false⟩⟩ plainActs ⟨.returned (.ok ()), ⟨[112], false⟩⟩ := by
  have hprobed : probed (.exited (some 1) [] (utf8 CmdOutput.noKeyText)) = .asking := by
    have hlisted : listed none (.exited (some 1) [] (utf8 CmdOutput.noKeyText)) =
        .error .locked := by decide +kernel
    rw [probed, hlisted]
  have hattempted : attempted [112] (.exited (some 0) [] []) = .setting [112] := by
    have hlisted : listed (some [112]) (.exited (some 0) [] []) = .ok [] := by decide +kernel
    rw [attempted, hlisted]
  have hconnected : Runs (SeedStep plainAnswers ⟨.touchId, "agent.sock"⟩) _ _ _ :=
    Runs.start.step (.connected ⟨[112], false⟩ false)
  have hprobing := hconnected.step (.dropped _ true)
  have hasking := hprobing.step (.probed _ (.exited (some 1) [] (utf8 CmdOutput.noKeyText)) rfl)
  rw [hprobed] at hasking
  have hsetting := (hasking.step (.typed _ (.ok [112]))).step (.attempted _ [112]
    (.exited (some 0) [] []) rfl)
  rw [hattempted] at hsetting
  exact hsetting.step (.set _ [112] (.ok ()))

theorem sets_checked_only_plain : Checked ⟨[112], false⟩ plainActs [112] :=
  sets_checked_only honest_plainAnswers ⟨.touchId, "agent.sock"⟩ ⟨[112], false⟩ runs_plainActs [112]
    (.ok ()) (by decide)

end LastpassSshAgent.Seeding
