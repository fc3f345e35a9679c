import LastpassSshAgent.Confirm
import LastpassSshAgent.Piping.Collecting
import LastpassSshAgent.SecretReaders

/-!
# Helpers that ask the user

A passphrase or a confirmation may be asked for by a program of the user's, or by a dialog of
the system's. Whatever the helper does and however its steps and the agent's fall, what comes
of it is what the helper said and how it exited, or a refusal.
-/

namespace LastpassSshAgent.Helpers

open Piping

inductive ExitStatus where
  | exited (code : ℤ)
  | signaled (signal : ℤ)
  deriving DecidableEq, Repr

def ExitStatus.success (status : ExitStatus) : Bool := status == .exited 0

/-- How a helper is attached to the agent, and what is made of how it went. -/
structure Helper (ρ : Type) where
  collector : Collector ExitStatus UInt8 ρ
  /-- The outputs that go nowhere. -/
  discarded : List Output
  unspawned : String → ρ

/-- What asks: the program that the configuration names, or the system's own dialog. -/
inductive Transport where
  | askpass (program : String)
  | osascript (program : String) (shown : ExitStatus → String)

/-! ### Passphrases -/

/-- The line ending goes as it goes from what `lpass` prints. -/
def stripLineEnding (secret : Bytes) : Bytes := CmdOutput.stripNewline secret

def Interrupted (r : Except PromptError Bytes) : Prop :=
  r = .error .cancelled ∨ ∃ why, r = .error (helperFailed why)

def cannotSpawn (program why : String) : Except PromptError Bytes :=
  .error (.unavailable s!"cannot spawn {program}: {why}")

/-- Killed by a signal, a helper did not ask anyone anything. -/
def askpassAnswer (program : String) (secret : Bytes) : ExitStatus → Except PromptError Bytes
  | .exited code => if code = 0 then .ok (stripLineEnding secret) else .error .cancelled
  | .signaled signal => .error (.unavailable s!"{program} was killed by signal {signal}")

def askpassPrompt (program : String) : Helper (Except PromptError Bytes) where
  collector :=
    { bound
        | .out => .refuse MAX_PASSPHRASE_BYTES
        | .err => .stop 0
      refused := .error (.tooLong MAX_PASSPHRASE_BYTES)
      finished := fun read status => askpassAnswer program (read .out) status
      Cut := Interrupted }
  discarded := [.err]
  unspawned := cannotSpawn program

def noSessionText : String :=
  "no GUI session for the passphrase dialog — use confirm = \"tty\" or \"askpass\" in headless setups"

def dialogFailed (shown : ExitStatus → String) (stderr : String) (status : ExitStatus) :
    PromptError :=
  if containsText stderr "No user interaction allowed" then .unavailable noSessionText
  else if containsText stderr "User canceled" ||
      containsText stderr "passphrase entry timed out" then .cancelled
  else .unavailable s!"osascript exited with {shown status}: {escapeForDisplay (trim stderr)}"

def dialogAnswer (shown : ExitStatus → String) (secret stderr : Bytes) (status : ExitStatus) :
    Except PromptError Bytes :=
  if status.success then .ok (stripLineEnding secret)
  else .error (dialogFailed shown (fromUtf8Lossy stderr) status)

def MAX_DIAGNOSTICS : ℕ := 4096

def osascriptPrompt (program : String) (shown : ExitStatus → String) :
    Helper (Except PromptError Bytes) where
  collector :=
    { bound
        | .out => .refuse MAX_PASSPHRASE_BYTES
        | .err => .stop MAX_DIAGNOSTICS
      refused := .error (.tooLong MAX_PASSPHRASE_BYTES)
      finished := fun read status => dialogAnswer shown (read .out) (read .err) status
      Cut := Interrupted }
  discarded := []
  unspawned := cannotSpawn program

def Transport.prompt : Transport → Helper (Except PromptError Bytes)
  | .askpass program => askpassPrompt program
  | .osascript program shown => osascriptPrompt program shown

/-! ### Confirmations -/

def askpassConfirmer : Helper Decision where
  collector :=
    { bound := fun _ => .stop 0
      refused := .deny
      finished := fun _ status => if status.success then .approve else .deny
      Cut := (· = .deny) }
  discarded := [.out, .err]
  unspawned _ := .deny

/-- A dialog that gave up exits well, and says so. -/
def dialogAllows (stdout : String) : Bool :=
  containsText stdout "button returned:Allow" && !containsText stdout "gave up:true"

def osascriptConfirmer : Helper Decision where
  collector :=
    { bound := fun _ => .whole
      refused := .deny
      finished := fun read status =>
        if status.success && dialogAllows (fromUtf8Lossy (read .out)) then .approve else .deny
      Cut := (· = .deny) }
  discarded := []
  unspawned _ := .deny

def Transport.confirmer : Transport → Helper Decision
  | .askpass _ => askpassConfirmer
  | .osascript _ _ => osascriptConfirmer

/-! ### A helper at work -/

namespace Helper

variable {ρ : Type} (h : Helper ρ) (room : Room)

/-- The process as it runs, with what it writes to a discarded output going nowhere. -/
def attached (process : Process ExitStatus UInt8) : Process ExitStatus UInt8 :=
  h.discarded.foldr Process.discarding process

/-- Nothing is fed to a helper. -/
abbrev Works (process : Process ExitStatus UInt8) (acts : List (CallAct ρ))
    (s : Call ExitStatus UInt8 ρ) : Prop :=
  Calls h.collector (h.attached process) none room acts s

def Ends (spawned : Except String (Process ExitStatus UInt8)) (acts : List (CallAct ρ)) (r : ρ) :
    Prop :=
  match spawned with
  | .error why => r = h.unspawned why
  | .ok process => h.Works room process acts (.returned r)

/-- What a helper says when nothing cuts it short. -/
def verdict (process : Process ExitStatus UInt8) : ρ :=
  h.collector.result ((h.attached process).transcript [])

end Helper

/-- The helper exited well and printed an answer that is short enough. -/
def Answered (process : Process ExitStatus UInt8) (secret : Bytes) : Prop :=
  (process.transcript []).status = .exited 0 ∧
    ((process.transcript []).printed .out).length ≤ MAX_PASSPHRASE_BYTES ∧
    secret = stripLineEnding ((process.transcript []).printed .out)

def Transport.Allowed (t : Transport) (process : Process ExitStatus UInt8) : Prop :=
  (process.transcript []).status = .exited 0 ∧
    match t with
    | .askpass _ => True
    | .osascript _ _ =>
      dialogAllows (fromUtf8Lossy ((process.transcript []).printed .out)) = true

/-- What a dialog says of how it failed has room in its pipe behind what is read of it. -/
def Transport.DiagnosticsFit (t : Transport) (room : Room) (process : Process ExitStatus UInt8) :
    Prop :=
  match t with
  | .askpass _ => True
  | .osascript _ _ =>
    ((process.transcript []).printed .err).length ≤ MAX_DIAGNOSTICS + room.output .err

/-! ### What helpers say -/

variable {ρ : Type} {t : Transport} {h : Helper ρ} {room : Room} {acts : List (CallAct ρ)}
  {process : Process ExitStatus UInt8} {secret : Bytes} {status : ExitStatus}

theorem success_iff : status.success = true ↔ status = .exited 0 := beq_iff_eq

theorem askpassPrompt_printed (program : String) (process : Process ExitStatus UInt8) :
    ((askpassPrompt program).attached process).transcript [] =
      { process.transcript [] with
        printed := Function.update (process.transcript []).printed .err [] } :=
  Process.transcript_discarding .err process []

theorem askpassPrompt_refuses {program : String} :
    (askpassPrompt program).collector.Refuses
        (((askpassPrompt program).attached process).transcript []) ↔
      MAX_PASSPHRASE_BYTES < ((process.transcript []).printed .out).length := by
  rw [askpassPrompt_printed]
  constructor
  · rintro ⟨o, ho⟩
    cases o with
    | out => exact ho
    | err => exact ho.elim
  · exact fun hlong => ⟨.out, hlong⟩

theorem osascriptPrompt_refuses {program : String} {shown : ExitStatus → String}
    {all : Transcript ExitStatus UInt8} :
    (osascriptPrompt program shown).collector.Refuses all ↔
      MAX_PASSPHRASE_BYTES < (all.printed .out).length := by
  constructor
  · rintro ⟨o, ho⟩
    cases o with
    | out => exact ho
    | err => exact ho.elim
  · exact fun hlong => ⟨.out, hlong⟩

theorem askpassAnswer_eq_ok {program : String} {typed : Bytes} :
    askpassAnswer program typed status = .ok secret ↔
      status = .exited 0 ∧ secret = stripLineEnding typed := by
  cases status with
  | exited code =>
    rw [askpassAnswer]
    split_ifs with hcode
    · subst hcode
      simp [eq_comm]
    · simp [hcode]
  | signaled signal => simp [askpassAnswer]

theorem dialogAnswer_eq_ok {shown : ExitStatus → String} {typed stderr : Bytes} :
    dialogAnswer shown typed stderr status = .ok secret ↔
      status = .exited 0 ∧ secret = stripLineEnding typed := by
  rw [dialogAnswer]
  split_ifs with hsuccess
  · simp [success_iff.mp hsuccess, eq_comm]
  · simp [mt success_iff.mpr hsuccess]

theorem askpassPrompt_verdict {program : String} :
    (askpassPrompt program).verdict process = .ok secret ↔ Answered process secret := by
  rw [Helper.verdict, Collector.result]
  by_cases hlong : MAX_PASSPHRASE_BYTES < ((process.transcript []).printed .out).length
  · rw [if_pos (askpassPrompt_refuses.mpr hlong)]
    refine iff_of_false (fun habsurd => by cases habsurd) fun ha => ?_
    exact Nat.not_lt.mpr ha.2.1 hlong
  · rw [if_neg (mt askpassPrompt_refuses.mp hlong), askpassPrompt_printed]
    refine askpassAnswer_eq_ok.trans ?_
    exact and_congr_right fun _ => (and_iff_right (Nat.le_of_not_lt hlong)).symm

theorem osascriptPrompt_verdict {program : String} {shown : ExitStatus → String} :
    (osascriptPrompt program shown).verdict process = .ok secret ↔ Answered process secret := by
  show (osascriptPrompt program shown).collector.result (process.transcript []) = _ ↔ _
  rw [Collector.result]
  by_cases hlong : MAX_PASSPHRASE_BYTES < ((process.transcript []).printed .out).length
  · rw [if_pos (osascriptPrompt_refuses.mpr hlong)]
    refine iff_of_false (fun habsurd => by cases habsurd) fun ha => ?_
    exact Nat.not_lt.mpr ha.2.1 hlong
  · rw [if_neg (mt osascriptPrompt_refuses.mp hlong)]
    refine dialogAnswer_eq_ok.trans ?_
    exact and_congr_right fun _ => (and_iff_right (Nat.le_of_not_lt hlong)).symm

/-- Either way of asking gives an answer exactly when the helper exited well with one. -/
theorem prompt_verdict : t.prompt.verdict process = .ok secret ↔ Answered process secret := by
  cases t with
  | askpass program => exact askpassPrompt_verdict
  | osascript program shown => exact osascriptPrompt_verdict

theorem askpassConfirmer_verdict : askpassConfirmer.verdict process = .approve ↔
    (process.transcript []).status = .exited 0 := by
  have hrefuses : ∀ all, ¬ askpassConfirmer.collector.Refuses all := fun all ⟨_, ho⟩ => ho
  have hstatus : ((askpassConfirmer.attached process).transcript []).status =
      (process.transcript []).status := by
    show (((process.discarding .err).discarding .out).transcript []).status = _
    rw [Process.transcript_discarding, Process.transcript_discarding]
  rw [Helper.verdict, Collector.result, if_neg (hrefuses _), hstatus]
  show (if ExitStatus.success _ = true then Decision.approve else .deny) = _ ↔ _
  split_ifs with hsuccess
  · exact iff_of_true rfl (success_iff.mp hsuccess)
  · exact iff_of_false (fun habsurd => by cases habsurd) (mt success_iff.mpr hsuccess)

theorem osascriptConfirmer_verdict : osascriptConfirmer.verdict process = .approve ↔
    (process.transcript []).status = .exited 0 ∧
      dialogAllows (fromUtf8Lossy ((process.transcript []).printed .out)) = true := by
  have hrefuses : ∀ all, ¬ osascriptConfirmer.collector.Refuses all := fun all ⟨_, ho⟩ => ho
  show osascriptConfirmer.collector.result (process.transcript []) = _ ↔ _
  rw [Collector.result, if_neg (hrefuses _), ← success_iff, ← Bool.and_eq_true]
  show (if (_ && _) = true then Decision.approve else .deny) = _ ↔ _
  split_ifs with hallows
  · exact iff_of_true rfl hallows
  · exact iff_of_false (fun habsurd => by cases habsurd) hallows

theorem confirmer_verdict : t.confirmer.verdict process = .approve ↔ t.Allowed process := by
  cases t with
  | askpass program => exact askpassConfirmer_verdict.trans (and_iff_left trivial).symm
  | osascript program shown => exact osascriptConfirmer_verdict

theorem prompt_cut {r : Except PromptError Bytes} (hcut : t.prompt.collector.Cut r) :
    Interrupted r := by
  cases t with
  | askpass program => exact hcut
  | osascript program shown => exact hcut

theorem confirmer_cut {r : Decision} (hcut : t.confirmer.collector.Cut r) : r = .deny := by
  cases t with
  | askpass program => exact hcut
  | osascript program shown => exact hcut

theorem prompt_fits (hfits : t.DiagnosticsFit room process) :
    t.prompt.collector.Fits room ((t.prompt.attached process).transcript []) := by
  cases t with
  | askpass program =>
    have hprinted := askpassPrompt_printed program process
    intro o
    show ((askpassPrompt program).collector.bound o).Fits _ _
    cases o with
    | out => trivial
    | err =>
      show ((((askpassPrompt program).attached process).transcript []).printed .err).length ≤ _
      rw [hprinted]
      exact Nat.zero_le _
  | osascript program shown =>
    intro o
    cases o with
    | out => trivial
    | err => exact hfits

theorem confirmer_fits :
    t.confirmer.collector.Fits room ((t.confirmer.attached process).transcript []) := by
  cases t with
  | askpass program =>
    intro o
    show ((((process.discarding .err).discarding .out).transcript []).printed o).length ≤ 0 + _
    rw [Process.transcript_discarding, Process.transcript_discarding]
    cases o with
    | out => exact Nat.zero_le _
    | err => exact Nat.zero_le _
  | osascript program shown => exact fun o => trivial

/-! ### What comes of a helper -/

/-- A helper comes to an end, with what it says or cut short; and it is never stuck before. -/
structure Speaks (h : Helper ρ) (room : Room) (process : Process ExitStatus UInt8) (fits : Prop)
    (Cut : ρ → Prop) : Prop where
  bounded : ∃ bound, ∀ acts s, h.Works room process acts s → acts.length ≤ bound
  ends : ∀ acts r, h.Works room process acts (.returned r) →
    r = h.verdict process ∨ .cut r ∈ acts ∧ Cut r
  goesOn : fits → ∀ acts s, h.Works room process acts s →
    (∃ r, s = .returned r) ∨ CanGoOn h.collector s

theorem Helper.speaks {fits : Prop} {Cut : ρ → Prop} (hroom : ∀ o, 0 < room.output o)
    (hcut : ∀ r, h.collector.Cut r → Cut r)
    (hfits : fits → h.collector.Fits room ((h.attached process).transcript [])) :
    Speaks h room process fits Cut := by
  have hlength : ∀ acts s, h.Works room process acts s →
      acts.length + weight s ≤ weight (.start (h.attached process) none room) :=
    fun acts s hworks => Calls.length_le hworks
  refine ⟨⟨_, fun acts s hworks => Nat.le_trans (Nat.le_add_right ..) (hlength acts s hworks)⟩,
    fun acts r hworks => ?_, fun hroomy acts s hworks => ?_⟩
  · exact (Calls.result hworks).imp_right fun ⟨hmem, hr⟩ => ⟨hmem, hcut r hr⟩
  · exact Calls.canGoOn hworks (Nat.zero_le _) hroom (hfits hroomy)

/-- Whatever a helper does, and however its steps fall: a passphrase comes of it only when it
exited well and printed one that is short enough, and is that one; an approval only when it
exited well and, from a dialog, was allowed. Nothing else that comes to its end does either,
and what cuts one short is a refusal. -/
theorem helpers_answer (t : Transport) (room : Room) (hroom : ∀ o, 0 < room.output o)
    (spawned : Except String (Process ExitStatus UInt8)) :
    (∀ acts secret, t.prompt.Ends room spawned acts (.ok secret) →
      ∃ process, spawned = .ok process ∧ Answered process secret) ∧
    (∀ acts, t.confirmer.Ends room spawned acts .approve →
      ∃ process, spawned = .ok process ∧ t.Allowed process) ∧
    ∀ process, spawned = .ok process →
      Speaks t.prompt room process (t.DiagnosticsFit room process) Interrupted ∧
      Speaks t.confirmer room process True (· = .deny) ∧
      (∀ secret, Answered process secret → t.prompt.verdict process = .ok secret) ∧
      (t.Allowed process → t.confirmer.verdict process = .approve) := by
  have hprompt : ∀ process,
      Speaks t.prompt room process (t.DiagnosticsFit room process) Interrupted :=
    fun process => Helper.speaks hroom (fun _ => prompt_cut) prompt_fits
  have hconfirmer : ∀ process, Speaks t.confirmer room process True (· = .deny) :=
    fun process => Helper.speaks hroom (fun _ => confirmer_cut) fun _ => confirmer_fits
  refine ⟨fun acts secret hends => ?_, fun acts hends => ?_, fun process _ => ?_⟩
  · cases spawned with
    | error why =>
      have hrefused : Except.ok secret = t.prompt.unspawned why := hends
      cases t <;> cases hrefused
    | ok process =>
      refine ⟨process, rfl, ?_⟩
      rcases (hprompt process).ends acts _ hends with hverdict | ⟨-, hcut | ⟨why, hcut⟩⟩
      · exact prompt_verdict.mp hverdict.symm
      · cases hcut
      · cases hcut
  · cases spawned with
    | error why =>
      have hrefused : Decision.approve = t.confirmer.unspawned why := hends
      cases t <;> cases hrefused
    | ok process =>
      refine ⟨process, rfl, ?_⟩
      rcases (hconfirmer process).ends acts _ hends with hverdict | ⟨-, hcut⟩
      · exact confirmer_verdict.mp hverdict.symm
      · cases hcut
  · exact ⟨hprompt process, hconfirmer process, fun _ => prompt_verdict.mpr, confirmer_verdict.mpr⟩

def typing : Process ExitStatus UInt8 := .write .out 112 (.write .out 10 (.exit (.exited 0)))

theorem helpers_answer_typing :
    (askpassPrompt "/usr/bin/askpass").verdict typing = .ok [112] ∧
      ∃ bound, ∀ acts s,
        (askpassPrompt "/usr/bin/askpass").Works ⟨0, fun _ => 65536⟩ typing acts s →
          acts.length ≤ bound := by
  have hroom : ∀ o : Output, 0 < (⟨0, fun _ => 65536⟩ : Room).output o := fun _ => Nat.succ_pos _
  obtain ⟨-, -, hspeaks⟩ := helpers_answer (.askpass "/usr/bin/askpass") ⟨0, fun _ => 65536⟩ hroom
    (.ok typing)
  obtain ⟨hprompt, -, hanswered, -⟩ := hspeaks typing rfl
  exact ⟨hanswered [112] ⟨rfl, by decide, rfl⟩, hprompt.bounded⟩

end LastpassSshAgent.Helpers
