import Mathlib.Data.Nat.Bits
import LastpassSshAgent.Disk.FileSystem
import LastpassSshAgent.Enclave
import LastpassSshAgent.Transitions.Runs

/-!
# Private files are written whole or not at all

A file is staged beside its destination, under a name with the writing process's id, and
renamed into place. Any number of processes write to one destination; each can fail or be
killed between any two steps, and one with the same id can come after it.
-/

namespace LastpassSshAgent.PrivateFiles

open Disk Transitions

abbrev Path : Type := Bytes

abbrev Storage : Type := FileSystem Path UInt8

abbrev View : Type := Disk.Seen Path UInt8

structure Call where
  contents : Bytes
  mode : ℕ
  deriving DecidableEq, Repr

def staging (path : Path) (pid : ℕ) : Path := path ++ utf8 ("." ++ toString pid)

def permissions (mode : ℕ) : ℕ := mode % 0o10000

def created (umask mode : ℕ) : ℕ := Nat.ldiff (permissions mode) umask

/-- How far a process has come with the call it is making. -/
inductive Writer where
  | idle
  | opening (call : Call)
  | writing (call : Call) (fd offset : ℕ)
  | closed (call : Call)
  | secured (call : Call)
  | renamed (call : Call)
  | dead
  deriving DecidableEq, Repr

structure Host where
  storage : Storage
  writers : ℕ → Writer

namespace Host

def start (storage : Storage) : Host := ⟨storage, fun _ => .idle⟩

def advance (host : Host) (pid : ℕ) (writer : Writer) (storage : Storage) : Host :=
  ⟨storage, Function.update host.writers pid writer⟩

end Host

inductive WriteAct where
  | call (pid : ℕ) (call : Call)
  | opened (pid : ℕ)
  | wrote (pid n : ℕ)
  | closed (pid : ℕ)
  | secured (pid : ℕ)
  | renamed (pid : ℕ) (call : Call)
  | returned (pid : ℕ)
  | failed (pid : ℕ)
  | killed (pid : ℕ)
  | started (pid : ℕ)
  deriving DecidableEq, Repr

def WriteAct.pid : WriteAct → ℕ
  | .call pid _ | .opened pid | .wrote pid _ | .closed pid | .secured pid | .renamed pid _
  | .returned pid | .failed pid | .killed pid | .started pid => pid

/-- A call that can still return an error. -/
def Writer.fallible : Writer → Bool
  | .opening _ | .writing _ _ _ | .closed _ | .secured _ => true
  | _ => false

inductive WriteStep (path : Path) (umask : ℕ → ℕ) : Host → WriteAct → Host → Prop
  | call {s : Host} {pid : ℕ} (call : Call) (h : s.writers pid = .idle) :
      WriteStep path umask s (.call pid call) (s.advance pid (.opening call) s.storage)
  | opened {s : Host} {pid fd : ℕ} {call : Call} {storage : Storage}
      (h : s.writers pid = .opening call)
      (hopen : s.storage.openTruncate (staging path pid) (created (umask pid) call.mode) =
        some (fd, storage)) :
      WriteStep path umask s (.opened pid) (s.advance pid (.writing call fd 0) storage)
  /-- As much of what is left as the system takes. -/
  | wrote {s : Host} {pid fd offset n : ℕ} {call : Call}
      (h : s.writers pid = .writing call fd offset) (hn : 0 < n)
      (hle : offset + n ≤ call.contents.length) :
      WriteStep path umask s (.wrote pid n) (s.advance pid (.writing call fd (offset + n))
        (s.storage.write fd offset ((call.contents.drop offset).take n)))
  | closed {s : Host} {pid fd : ℕ} {call : Call}
      (h : s.writers pid = .writing call fd call.contents.length) :
      WriteStep path umask s (.closed pid) (s.advance pid (.closed call) s.storage)
  | secured {s : Host} {pid : ℕ} {call : Call} {storage : Storage}
      (h : s.writers pid = .closed call)
      (hchmod : s.storage.chmod (staging path pid) (permissions call.mode) = some storage) :
      WriteStep path umask s (.secured pid) (s.advance pid (.secured call) storage)
  | renamed {s : Host} {pid : ℕ} {call : Call} {storage : Storage}
      (h : s.writers pid = .secured call)
      (hrename : s.storage.rename (staging path pid) path = some storage) :
      WriteStep path umask s (.renamed pid call) (s.advance pid (.renamed call) storage)
  | returned {s : Host} {pid : ℕ} {call : Call} (h : s.writers pid = .renamed call) :
      WriteStep path umask s (.returned pid) (s.advance pid .idle s.storage)
  | failed {s : Host} {pid : ℕ} (h : (s.writers pid).fallible = true) :
      WriteStep path umask s (.failed pid) (s.advance pid .idle s.storage)
  | killed {s : Host} {pid : ℕ} (h : s.writers pid ≠ .dead) :
      WriteStep path umask s (.killed pid) (s.advance pid .dead s.storage)
  | started {s : Host} {pid : ℕ} (h : s.writers pid = .dead) :
      WriteStep path umask s (.started pid) (s.advance pid .idle s.storage)

abbrev Writes (path : Path) (umask : ℕ → ℕ) (storage : Storage) (acts : List WriteAct)
    (s : Host) : Prop :=
  Runs (WriteStep path umask) (.start storage) acts s

/-! ### Staging names -/

theorem staging_ne (path : Path) (pid : ℕ) : staging path pid ≠ path := by
  intro h
  have hnil : utf8 ("." ++ toString pid) = [] := List.append_right_eq_self.mp h
  have hempty := congrArg String.toList (utf8_eq_nil hnil)
  simp at hempty

theorem staging_inj {path : Path} {pid pid' : ℕ} (h : staging path pid = staging path pid') :
    pid = pid' := by
  have htext := congrArg String.toList (utf8_inj (List.append_cancel_left h))
  rw [String.toList_append, String.toList_append] at htext
  exact toString_inj (String.toList_inj.mp (List.append_cancel_left htext))

/-! ### What is staged -/

/-- What a call has at its staging name, as far as it has come. -/
def Staged (path : Path) (storage : Storage) (pid : ℕ) : Writer → Prop
  | .writing call fd offset => storage.names (staging path pid) = some (.file fd) ∧
      (storage.inodes fd).contents = call.contents.take offset ∧ offset ≤ call.contents.length
  | .closed call => ∃ i, storage.names (staging path pid) = some (.file i) ∧
      (storage.inodes i).contents = call.contents
  | .secured call => ∃ i, storage.names (staging path pid) = some (.file i) ∧
      storage.inodes i = ⟨call.contents, permissions call.mode⟩
  | _ => True

variable {path : Path} {umask : ℕ → ℕ} {storage storage' : Storage} {s s' : Host} {a : WriteAct}
  {acts : List WriteAct} {pid : ℕ} {call : Call} {writer : Writer}

theorem Staged.kept (h : Staged path storage pid writer)
    (hkept : storage.Kept storage' (staging path pid)) : Staged path storage' pid writer := by
  cases writer with
  | writing call fd offset =>
    obtain ⟨hname, hcontents, hle⟩ := h
    exact ⟨hkept.node.trans hname, hkept.inode fd hname ▸ hcontents, hle⟩
  | closed call =>
    obtain ⟨i, hname, hcontents⟩ := h
    exact ⟨i, hkept.node.trans hname, hkept.inode i hname ▸ hcontents⟩
  | secured call =>
    obtain ⟨i, hname, hinode⟩ := h
    exact ⟨i, hkept.node.trans hname, (hkept.inode i hname).trans hinode⟩
  | _ => trivial

/-- A call's whole contents, at the mode asked for. -/
def Call.whole (call : Call) : View := .file call.contents (permissions call.mode)

/-- What an act puts at the destination, if it does. -/
def WriteAct.puts : WriteAct → Option View
  | .renamed _ call => some call.whole
  | _ => none

/-- What one step does, from where the process has staged what it should. -/
structure Steps (path : Path) (s : Host) (a : WriteAct) (s' : Host) : Prop where
  staged : Staged path s'.storage a.pid (s'.writers a.pid)
  kept (name : Path) : name ≠ staging path a.pid → name ≠ path →
    s.storage.Kept s'.storage name
  destination : s'.storage.seen path = a.puts.getD (s.storage.seen path)

theorem Host.advance_self : (s.advance pid writer storage).writers pid = writer :=
  Function.update_self _ _ _

theorem Host.advance_of_ne {pid' : ℕ} (h : pid' ≠ pid) :
    (s.advance pid writer storage).writers pid' = s.writers pid' := Function.update_of_ne h _ _

theorem writers_of_step (h : WriteStep path umask s a s') (hne : pid ≠ a.pid) :
    s'.writers pid = s.writers pid := by
  cases h <;> exact Host.advance_of_ne hne

theorem Steps.of_kept (ha : a.pid = pid) (hputs : a.puts = none)
    (hstaged : Staged path storage pid writer)
    (hkept : ∀ name, name ≠ staging path pid → s.storage.Kept storage name) :
    Steps path s a (s.advance pid writer storage) where
  staged := by
    rw [ha, Host.advance_self]
    exact hstaged
  kept name hne _ := hkept name (ha ▸ hne)
  destination := by
    rw [hputs]
    exact (hkept path (staging_ne path pid).symm).seen

theorem Steps.of_same (ha : a.pid = pid) (hputs : a.puts = none)
    (hstaged : Staged path s.storage pid writer) :
    Steps path s a (s.advance pid writer s.storage) :=
  .of_kept ha hputs hstaged fun name _ => .refl s.storage name

theorem steps_of_step (h : WriteStep path umask s a s')
    (hs : Staged path s.storage a.pid (s.writers a.pid)) : Steps path s a s' := by
  cases h with
  | call => exact .of_same rfl rfl trivial
  | opened h hopen =>
    obtain ⟨hname, hempty, hkept⟩ := FileSystem.openTruncate_spec hopen
    exact .of_kept rfl rfl ⟨hname, hempty, Nat.zero_le _⟩ hkept
  | @wrote pid fd offset n call h hn hle =>
    obtain ⟨hname, hcontents, hoffset⟩ : Staged path s.storage pid (.writing call fd offset) :=
      h ▸ hs
    refine .of_kept rfl rfl ⟨hname, ?_, hle⟩ fun name hne => FileSystem.kept_setInode hname hne
    have hwritten : FileSystem.overwrite (call.contents.take offset) offset
        ((call.contents.drop offset).take n) = call.contents.take (offset + n) := by
      rw [List.take_add]
      have hend := @FileSystem.overwrite_end UInt8 _ (call.contents.take offset)
        ((call.contents.drop offset).take n)
      rwa [List.length_take_of_le hoffset] at hend
    rw [FileSystem.write, FileSystem.setInode_self, hcontents]
    exact hwritten
  | @closed pid fd call h =>
    obtain ⟨hname, hcontents, -⟩ : Staged path s.storage pid
      (.writing call fd call.contents.length) := h ▸ hs
    exact .of_same rfl rfl ⟨fd, hname, hcontents.trans List.take_length⟩
  | @secured pid call storage h hchmod =>
    obtain ⟨i, hname, hcontents⟩ : Staged path s.storage pid (.closed call) := h ▸ hs
    rw [FileSystem.chmod_file hname] at hchmod
    obtain rfl := Option.some.inj hchmod
    refine .of_kept rfl rfl ⟨i, hname, ?_⟩ fun name hne => FileSystem.kept_setInode hname hne
    rw [FileSystem.setInode_self]
    exact congrArg (fun contents => Inode.mk contents _) hcontents
  | @renamed pid call storage h hrename =>
    obtain ⟨i, hname, hinode⟩ : Staged path s.storage pid (.secured call) := h ▸ hs
    obtain ⟨hpath, hinodes, hkept⟩ := FileSystem.rename_file hname hrename
    refine ⟨?_, hkept, ?_⟩
    · rw [WriteAct.pid, Host.advance_self]
      trivial
    · change storage.seen path = _
      rw [FileSystem.seen_file hpath, hinodes, hinode]
      rfl
  | returned => exact .of_same rfl rfl trivial
  | failed => exact .of_same rfl rfl trivial
  | killed => exact .of_same rfl rfl trivial
  | started => exact .of_same rfl rfl trivial

/-! ### Every interleaving -/

def AllStaged (path : Path) (s : Host) : Prop :=
  ∀ pid, Staged path s.storage pid (s.writers pid)

theorem AllStaged.step (h : AllStaged path s) (hstep : WriteStep path umask s a s') :
    AllStaged path s' := by
  have hsteps := steps_of_step hstep (h a.pid)
  intro pid
  by_cases hpid : pid = a.pid
  · exact hpid ▸ hsteps.staged
  · rw [writers_of_step hstep hpid]
    exact (h pid).kept (hsteps.kept _ (fun heq => hpid (staging_inj heq)) (staging_ne path pid))

theorem allStaged_start : AllStaged path (.start storage) := fun _ => trivial

theorem allStaged_of_writes (h : Writes path umask storage acts s) : AllStaged path s :=
  h.invariant (fun _ => AllStaged path) allStaged_start fun _ _ _ _ => AllStaged.step

/-- Seen from the destination, the writers are a register. -/
theorem register_of_writes (h : Writes path umask storage acts s) :
    Runs (Register WriteAct.puts) (storage.seen path) acts (s.storage.seen path) :=
  h.refines (fun s => s.storage.seen path) (AllStaged path) allStaged_start
    (fun _ _ _ => AllStaged.step)
    fun _ a _ hs hstep => (steps_of_step hstep (hs a.pid)).destination

/-! ### One call from beginning to end -/

def Writer.calling : Writer → Option Call
  | .opening call | .writing call _ _ | .closed call | .secured call | .renamed call => some call
  | .idle | .dead => none

/-- Since the call was made: it is renamed once it has been, and not before. -/
def Since (pid : ℕ) (call : Call) (middle : List WriteAct) : Writer → Prop
  | .idle | .dead => True
  | .renamed call' => call' = call ∧ .renamed pid call ∈ middle
  | .opening call' | .writing call' _ _ | .closed call' | .secured call' =>
    call' = call ∧ ∀ call'', .renamed pid call'' ∉ middle

variable {front middle back : List WriteAct}

theorem Since.concat (h : Since pid call middle writer) (hnot : ∀ call', a ≠ .renamed pid call') :
    Since pid call (middle ++ [a]) writer := by
  have hsame (call' : Call) : .renamed pid call' ∈ middle ++ [a] ↔ .renamed pid call' ∈ middle := by
    rw [List.mem_append, List.mem_singleton]
    exact or_iff_left fun heq => hnot call' heq.symm
  cases writer with
  | idle => trivial
  | dead => trivial
  | renamed call' => exact ⟨h.1, (hsame call).mpr h.2⟩
  | opening call' => exact ⟨h.1, fun call'' => mt (hsame call'').mp (h.2 call'')⟩
  | writing call' fd offset => exact ⟨h.1, fun call'' => mt (hsame call'').mp (h.2 call'')⟩
  | closed call' => exact ⟨h.1, fun call'' => mt (hsame call'').mp (h.2 call'')⟩
  | secured call' => exact ⟨h.1, fun call'' => mt (hsame call'').mp (h.2 call'')⟩

/-- What an act is for the process that acts. -/
inductive Moves : Writer → WriteAct → Writer → Prop
  | call (pid : ℕ) (call : Call) : Moves .idle (.call pid call) (.opening call)
  | opened (pid fd : ℕ) (call : Call) : Moves (.opening call) (.opened pid) (.writing call fd 0)
  | wrote (pid fd offset n : ℕ) (call : Call) :
      Moves (.writing call fd offset) (.wrote pid n) (.writing call fd (offset + n))
  | closed (pid fd offset : ℕ) (call : Call) :
      Moves (.writing call fd offset) (.closed pid) (.closed call)
  | secured (pid : ℕ) (call : Call) : Moves (.closed call) (.secured pid) (.secured call)
  | renamed (pid : ℕ) (call : Call) : Moves (.secured call) (.renamed pid call) (.renamed call)
  | returned (pid : ℕ) (call : Call) : Moves (.renamed call) (.returned pid) .idle
  | failed {writer : Writer} (pid : ℕ) (h : writer.fallible = true) :
      Moves writer (.failed pid) .idle
  | killed (writer : Writer) (pid : ℕ) : Moves writer (.killed pid) .dead
  | started (pid : ℕ) : Moves .dead (.started pid) .idle

theorem moves_of_step (h : WriteStep path umask s a s') :
    Moves (s.writers a.pid) a (s'.writers a.pid) := by
  cases h with
  | call call h => simpa only [WriteAct.pid, Host.advance_self, h] using Moves.call _ call
  | opened h _ => simpa only [WriteAct.pid, Host.advance_self, h] using Moves.opened _ _ _
  | wrote h _ _ => simpa only [WriteAct.pid, Host.advance_self, h] using Moves.wrote _ _ _ _ _
  | closed h => simpa only [WriteAct.pid, Host.advance_self, h] using Moves.closed _ _ _ _
  | secured h _ => simpa only [WriteAct.pid, Host.advance_self, h] using Moves.secured _ _
  | renamed h _ => simpa only [WriteAct.pid, Host.advance_self, h] using Moves.renamed _ _
  | returned h => simpa only [WriteAct.pid, Host.advance_self, h] using Moves.returned _ _
  | failed h => simpa only [WriteAct.pid, Host.advance_self] using Moves.failed _ h
  | killed _ => simpa only [WriteAct.pid, Host.advance_self] using Moves.killed _ _
  | started h => simpa only [WriteAct.pid, Host.advance_self, h] using Moves.started _

theorem Since.moves {writer' : Writer} (h : Since a.pid call middle writer)
    (hmoves : Moves writer a writer') (hcall : ∀ call', a ≠ .call a.pid call') :
    Since a.pid call (middle ++ [a]) writer' := by
  cases hmoves with
  | call pid call' => exact absurd rfl (hcall call')
  | renamed pid call' =>
    obtain ⟨rfl, -⟩ := h
    exact ⟨rfl, by simp [WriteAct.pid]⟩
  | opened pid fd call' => exact (show Since pid call middle (.opening call') from h).concat nofun
  | wrote pid fd offset n call' =>
    exact (show Since pid call middle (.writing call' fd offset) from h).concat nofun
  | closed pid fd offset call' =>
    exact (show Since pid call middle (.writing call' fd offset) from h).concat nofun
  | secured pid call' => exact (show Since pid call middle (.closed call') from h).concat nofun
  | _ => trivial

theorem Since.step (h : Since pid call middle (s.writers pid)) (hstep : WriteStep path umask s a s')
    (hcall : ∀ call', a ≠ .call pid call') : Since pid call (middle ++ [a]) (s'.writers pid) := by
  by_cases hpid : pid = a.pid
  · subst hpid
    exact h.moves (moves_of_step hstep) hcall
  · rw [writers_of_step hstep hpid]
    exact h.concat fun call' heq => hpid (heq ▸ rfl)

/-- A call as far as it has come, from when it was made. -/
theorem since_of_runs (h : Runs (WriteStep path umask) s middle s')
    (hopening : s.writers pid = .opening call) (hcall : ∀ call', .call pid call' ∉ middle) :
    Since pid call middle (s'.writers pid) := by
  induction h with
  | start => exact hopening ▸ ⟨rfl, nofun⟩
  | step _ hact ih =>
    refine (ih fun call' hmem => hcall call' (List.mem_append_left _ hmem)).step hact ?_
    rintro call' rfl
    exact hcall call' (by simp)

theorem exists_since (h : Writes path umask storage acts s)
    (hacts : acts = front ++ .call pid call :: (middle ++ a :: back))
    (hcall : ∀ call', .call pid call' ∉ middle) :
    ∃ t u, WriteStep path umask t a u ∧ Since pid call middle (t.writers pid) := by
  obtain ⟨m, m', -, hcalled, hrest⟩ := h.at hacts
  obtain ⟨t, u, hmiddle, hstep, -⟩ := hrest.at rfl
  refine ⟨t, u, hstep, since_of_runs hmiddle ?_ hcall⟩
  cases hcalled
  exact Host.advance_self

theorem calling_of_moves {writer' : Writer} (h : Moves writer a writer')
    (hcalling : ∀ call, writer.calling = some call → .call a.pid call ∈ acts)
    (hcall : writer'.calling = some call) :
    .call a.pid call ∈ acts ∨ .call a.pid call = a := by
  cases h with
  | call pid call' =>
    obtain rfl := Option.some.inj hcall
    exact .inr rfl
  | opened => exact .inl (hcalling call hcall)
  | wrote => exact .inl (hcalling call hcall)
  | closed => exact .inl (hcalling call hcall)
  | secured => exact .inl (hcalling call hcall)
  | renamed => exact .inl (hcalling call hcall)
  | _ => cases hcall

theorem called_of_writes (h : Writes path umask storage acts s) :
    ∀ pid call, (s.writers pid).calling = some call → .call pid call ∈ acts := by
  refine h.invariant (fun acts s => ∀ pid call, (s.writers pid).calling = some call →
    .call pid call ∈ acts) (fun _ _ => nofun) fun acts t a u ih hstep pid call hcalling => ?_
  rw [List.mem_append, List.mem_singleton]
  by_cases hpid : pid = a.pid
  · subst hpid
    exact calling_of_moves (moves_of_step hstep) (ih a.pid) hcalling
  · rw [writers_of_step hstep hpid] at hcalling
    exact .inl (ih pid call hcalling)

theorem called_of_renamed (h : Writes path umask storage acts s)
    (hrenamed : .renamed pid call ∈ acts) : .call pid call ∈ acts := by
  obtain ⟨front, back, rfl⟩ := List.append_of_mem hrenamed
  obtain ⟨m, u, hfront, hstep, -⟩ := h.at rfl
  cases hstep with
  | renamed hwriter _ =>
    have hcalling : (m.writers pid).calling = some call := congrArg Writer.calling hwriter
    exact List.mem_append_left _ (called_of_writes hfront pid call hcalling)

/-- A process that nothing stands in the way of carries its call out. -/
theorem exists_returned (path : Path) (umask : ℕ → ℕ) (storage : Storage) (pid : ℕ) (call : Call)
    (hstaging : storage.names (staging path pid) = none ∨
      ∃ i, storage.names (staging path pid) = some (.file i))
    (hdir : storage.seen path ≠ .directory) :
    ∃ acts s, Writes path umask storage (acts ++ [.returned pid]) s ∧
      s.storage.seen path = call.whole := by
  obtain ⟨fd, opened, hopen⟩ := FileSystem.exists_openTruncate hstaging
  have hcalled : Writes path umask storage [.call pid call] _ := .step .start (.call call rfl)
  have hopened := hcalled.step (.opened Host.advance_self hopen)
  obtain ⟨wrote, s₁, hwrote, hwriter, hputs⟩ : ∃ wrote s₁,
      Writes path umask storage (.call pid call :: .opened pid :: wrote) s₁ ∧
        s₁.writers pid = .writing call fd call.contents.length ∧
          wrote.filterMap WriteAct.puts = [] := by
    by_cases hempty : call.contents.length = 0
    · exact ⟨[], _, hopened, hempty ▸ Host.advance_self, rfl⟩
    · refine ⟨[.wrote pid call.contents.length], _, hopened.step (.wrote Host.advance_self
        (Nat.pos_of_ne_zero hempty) (Nat.zero_add _).le), ?_, rfl⟩
      rw [Host.advance_self, Nat.zero_add]
  have hclosed := hwrote.step (.closed hwriter)
  obtain ⟨i, hname, -⟩ : Staged path _ pid (.closed call) :=
    Host.advance_self ▸ allStaged_of_writes hclosed pid
  have hsecured := hclosed.step (.secured Host.advance_self (FileSystem.chmod_file hname))
  obtain ⟨j, hstaged, -⟩ : Staged path _ pid (.secured call) :=
    Host.advance_self ▸ allStaged_of_writes hsecured pid
  have hseen := Register.holds (register_of_writes hsecured)
  simp only [List.cons_append, List.filterMap_cons, List.filterMap_append, hputs,
    WriteAct.puts] at hseen
  obtain ⟨renamed, hrename⟩ := FileSystem.exists_rename hstaged fun h => hdir (hseen.symm.trans h)
  have hstep := @WriteStep.renamed path umask _ pid call renamed Host.advance_self hrename
  have hwhole := (steps_of_step hstep (allStaged_of_writes hsecured pid)).destination
  exact ⟨_, _, (hsecured.step hstep).step (.returned Host.advance_self), hwhole⟩

/-! ### All or nothing -/

/-- Whatever the writers do and wherever they stop, the destination holds what it held at
first, or one call's whole contents at that call's mode; and no writer reaches anything
but its staging name and the destination. -/
structure AllOrNothing (path : Path) (umask : ℕ → ℕ) (storage : Storage) : Prop where
  whole : ∀ acts s, Writes path umask storage acts s →
    (∀ pid call, .renamed pid call ∉ acts) ∧ s.storage.seen path = storage.seen path ∨
      ∃ pid call, .call pid call ∈ acts ∧ .renamed pid call ∈ acts ∧
        s.storage.seen path = call.whole
  renamed : ∀ acts s pid call s', Writes path umask storage acts s →
    WriteStep path umask s (.renamed pid call) s' → s'.storage.seen path = call.whole
  unchanged : ∀ acts s a s', Writes path umask storage acts s → WriteStep path umask s a s' →
    (∀ pid call, a ≠ .renamed pid call) → s'.storage.seen path = s.storage.seen path
  /-- A call that returns `Ok` was renamed into place. -/
  returned : ∀ acts s front pid call middle back, Writes path umask storage acts s →
    acts = front ++ .call pid call :: (middle ++ .returned pid :: back) →
      (∀ call', .call pid call' ∉ middle) → .renamed pid call ∈ middle
  /-- A call that returns an error was not. -/
  failed : ∀ acts s front pid call middle back, Writes path umask storage acts s →
    acts = front ++ .call pid call :: (middle ++ .failed pid :: back) →
      (∀ call', .call pid call' ∉ middle) → ∀ call', .renamed pid call' ∉ middle
  symlink : ∀ acts s a s' call target, Writes path umask storage acts s →
    WriteStep path umask s a s' → s.writers a.pid = .opening call →
      s.storage.names (staging path a.pid) = some (.symlink target) →
        (a = .failed a.pid ∨ a = .killed a.pid) ∧ s'.storage = s.storage
  elsewhere : ∀ acts s a s', Writes path umask storage acts s → WriteStep path umask s a s' →
    ∀ name, name ≠ staging path a.pid → name ≠ path →
      s'.storage.seen name = s.storage.seen name
  possible : ∀ pid (call : Call), storage.names (staging path pid) = none ∨
    (∃ i, storage.names (staging path pid) = some (.file i)) → storage.seen path ≠ .directory →
      ∃ acts s, Writes path umask storage (acts ++ [.returned pid]) s ∧
        s.storage.seen path = call.whole

theorem whole_of_writes (h : Writes path umask storage acts s) :
    (∀ pid call, .renamed pid call ∉ acts) ∧ s.storage.seen path = storage.seen path ∨
      ∃ pid call, .call pid call ∈ acts ∧ .renamed pid call ∈ acts ∧
        s.storage.seen path = call.whole := by
  have hholds := Register.holds (register_of_writes h)
  cases hlast : (acts.filterMap WriteAct.puts).getLast? with
  | none =>
    rw [hlast] at hholds
    refine .inl ⟨fun pid call hmem => ?_, hholds⟩
    have hput : call.whole ∈ acts.filterMap WriteAct.puts :=
      List.mem_filterMap.mpr ⟨_, hmem, rfl⟩
    rw [List.getLast?_eq_none_iff.mp hlast] at hput
    cases hput
  | some view =>
    rw [hlast] at hholds
    obtain ⟨a, hmem, hput⟩ := List.mem_filterMap.mp (List.mem_of_getLast? hlast)
    cases a with
    | renamed pid call =>
      obtain rfl := Option.some.inj hput
      exact .inr ⟨pid, call, called_of_renamed h hmem, hmem, hholds⟩
    | _ => cases hput

theorem Since.not_renamed (h : Since pid call middle writer) (hfallible : writer.fallible = true) :
    ∀ call', .renamed pid call' ∉ middle := by
  cases writer with
  | opening call' => exact h.2
  | writing call' fd offset => exact h.2
  | closed call' => exact h.2
  | secured call' => exact h.2
  | _ => cases hfallible

/-- A link at the staging name is not opened, so all a process can do is fail or be killed. -/
theorem refused_of_symlink {target : Path} (hstep : WriteStep path umask s a s')
    (hwriter : s.writers a.pid = .opening call)
    (hname : s.storage.names (staging path a.pid) = some (.symlink target)) :
    (a = .failed a.pid ∨ a = .killed a.pid) ∧ s'.storage = s.storage := by
  have hmoves := moves_of_step hstep
  rw [hwriter] at hmoves
  generalize s'.writers a.pid = writer' at hmoves
  cases hmoves with
  | opened =>
    cases hstep with
    | opened _ hopen =>
      rw [WriteAct.pid] at hname
      rw [FileSystem.openTruncate_symlink hname] at hopen
      cases hopen
  | failed =>
    cases hstep
    exact ⟨.inl rfl, rfl⟩
  | killed =>
    cases hstep
    exact ⟨.inr rfl, rfl⟩

theorem all_or_nothing (path : Path) (umask : ℕ → ℕ) (storage : Storage) :
    AllOrNothing path umask storage where
  whole acts s := whole_of_writes
  renamed acts s pid call s' h hstep :=
    (steps_of_step hstep (allStaged_of_writes h pid)).destination
  unchanged acts s a s' h hstep hnot := by
    have hdestination := (steps_of_step hstep (allStaged_of_writes h a.pid)).destination
    cases a with
    | renamed pid call => exact absurd rfl (hnot pid call)
    | _ => exact hdestination
  returned acts s front pid call middle back h hacts hcall := by
    obtain ⟨t, u, hstep, hsince⟩ := exists_since h hacts hcall
    cases hstep with
    | @returned _ call' hwriter =>
      obtain ⟨-, hrenamed⟩ : Since pid call middle (.renamed call') := hwriter ▸ hsince
      exact hrenamed
  failed acts s front pid call middle back h hacts hcall := by
    obtain ⟨t, u, hstep, hsince⟩ := exists_since h hacts hcall
    cases hstep with
    | failed hfallible => exact hsince.not_renamed hfallible
  symlink acts s a s' call target h hstep hwriter hname := refused_of_symlink hstep hwriter hname
  elsewhere acts s a s' h hstep name hne hpath :=
    ((steps_of_step hstep (allStaged_of_writes h a.pid)).kept name hne hpath).seen
  possible pid call := exists_returned path umask storage pid call

/-! ### The agent's own files -/

def saving {α : Type} (encode : α → Except Error Bytes) (a : α) : Except Error Call :=
  (encode a).map fun bytes => ⟨bytes, 0o600⟩

/-- The write that keeps the identities, unless they cannot be encoded. -/
def saveIdentities (toml : Toml) (remembered : Remembered) : Except Error Call :=
  saving (Identities.encode toml) remembered

def saveStored (stored : Enclave.Stored) : Except Error Call := saving Enclave.Stored.encode stored

/-- Where every call keeps a value, what is found is what was there at first, or reads
back as one of those values. -/
theorem reads_back {α : Type} {encode : α → Except Error Bytes}
    {load : File → Except Error (Option α)} (Valid : α → Prop)
    (hload : ∀ a bytes, Valid a → encode a = .ok bytes → load (.regular bytes) = .ok (some a))
    (hsaves : ∀ pid call, .call pid call ∈ acts → ∃ a, Valid a ∧ saving encode a = .ok call)
    (h : Writes path umask storage acts s) : s.storage.seen path = storage.seen path ∨
      ∃ a bytes, s.storage.seen path = .file bytes 0o600 ∧ load (.regular bytes) = .ok (some a) := by
  rcases whole_of_writes h with ⟨-, hold⟩ | ⟨pid, call, hcalled, -, hwhole⟩
  · exact .inl hold
  · obtain ⟨a, hvalid, hsaving⟩ := hsaves pid call hcalled
    cases hencode : encode a with
    | error e =>
      rw [saving, hencode] at hsaving
      cases hsaving
    | ok bytes =>
      rw [saving, hencode] at hsaving
      obtain rfl := Except.ok.inj hsaving
      exact .inr ⟨a, bytes, hwhole, hload a bytes hvalid hencode⟩

theorem stored_reads_back (name : String)
    (hsaves : ∀ pid call, .call pid call ∈ acts → ∃ stored, saveStored stored = .ok call)
    (h : Writes path umask storage acts s) : s.storage.seen path = storage.seen path ∨
      ∃ stored bytes, s.storage.seen path = .file bytes 0o600 ∧
        Enclave.load name (.regular bytes) = .ok (some stored) := by
  refine reads_back (fun _ => True) (fun _ _ _ => Enclave.load_regular.mpr)
    (fun pid call hcalled => ?_) h
  obtain ⟨stored, hsaving⟩ := hsaves pid call hcalled
  exact ⟨stored, trivial, hsaving⟩

/-- The identities are few enough, and named by item ids, as the agent's are. -/
def Readable (toml : Toml) (remembered : Remembered) : Prop :=
  (∀ bytes, Identities.encode toml remembered = .ok bytes →
    bytes.length ≤ Identities.MAX_BYTES) ∧ ∀ key ∈ remembered.keys, isItemId key.id = true

theorem identities_read_back {toml : Toml} (htoml : toml.RoundTrips) (name : String)
    (hsaves : ∀ pid call, .call pid call ∈ acts → ∃ remembered, Readable toml remembered ∧
      saveIdentities toml remembered = .ok call)
    (h : Writes path umask storage acts s) : s.storage.seen path = storage.seen path ∨
      ∃ remembered bytes, s.storage.seen path = .file bytes 0o600 ∧
        Identities.load toml name (.regular bytes) = .ok (some remembered) :=
  reads_back (Readable toml) (fun _ _ hreadable hencode =>
    Identities.load_encode htoml name hencode (hreadable.1 _ hencode) hreadable.2) hsaves h

end LastpassSshAgent.PrivateFiles
