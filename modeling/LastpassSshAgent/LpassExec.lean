import LastpassSshAgent.Piping.Collecting
import LastpassSshAgent.SecretReaders

/-!
# One run of `lpass`

The master password is fed first, in one line that its pipe has room for. Then both outputs
are read side by side, and `lpass` is reaped once both are at their end. Whenever it and its
readers take their steps, the call comes to the same result.
-/

namespace LastpassSshAgent.LpassExec

open Piping

/-- What a fed call writes to `lpass`: the line it would have read from a terminal. -/
def fedLine (password : Bytes) : Bytes := password ++ [10]

/-- The output is read to the cap of the caller and the diagnostics to the limit of a field;
the clock and the system may cut the call short. -/
def exec (fed : Bool) (maxBytes : ℕ) :
    Collector (Option ℤ) UInt8 (Except LpassError CmdOutput) where
  bound
    | .out => .refuse maxBytes
    | .err => .stop MAX_FIELD_BYTES
  refused := .error (.fieldTooLarge maxBytes)
  finished read code := .ok ⟨code == some 0, code, fed, CmdOutput.stripNewline (read .out),
    CmdOutput.diagnostics (read .err)⟩
  Cut r := r = .error (.timeout DEFAULT_TIMEOUT) ∨ ∃ why, r = .error (.spawn why)

abbrev Executes (lpass : Process (Option ℤ) UInt8) (password : Option Bytes) (maxBytes : ℕ)
    (room : Room) (acts : List (CallAct (Except LpassError CmdOutput)))
    (s : Call (Option ℤ) UInt8 (Except LpassError CmdOutput)) : Prop :=
  Calls (exec password.isSome maxBytes) lpass (password.map fedLine) room acts s

def printed (lpass : Process (Option ℤ) UInt8) (password : Option Bytes) :
    Transcript (Option ℤ) UInt8 :=
  lpass.transcript ((password.map fedLine).getD [])

/-- What the call comes to when nothing cuts it short: what `lpass` printed and its exit
code, whatever the order of the steps. -/
def result (fed : Bool) (maxBytes : ℕ) (printed : Transcript (Option ℤ) UInt8) :
    Except LpassError CmdOutput :=
  CmdOutput.of fed maxBytes (.exited printed.status (printed.printed .out) (printed.printed .err))

def ErrFits (room : Room) (printed : Transcript (Option ℤ) UInt8) : Prop :=
  (printed.printed .err).length ≤ MAX_FIELD_BYTES + room.output .err

section

variable {fed : Bool} {maxBytes : ℕ} {room : Room} {all : Transcript (Option ℤ) UInt8}

theorem exec_refuses_iff :
    (exec fed maxBytes).Refuses all ↔ maxBytes < (all.printed .out).length := by
  constructor
  · rintro ⟨o, ho⟩
    cases o with
    | out => exact ho
    | err => exact ho.elim
  · exact fun h => ⟨.out, h⟩

theorem exec_fits_iff : (exec fed maxBytes).Fits room all ↔ ErrFits room all := by
  constructor
  · exact fun h => h .err
  · intro h o
    cases o with
    | out => trivial
    | err => exact h

/-- What was not kept of the diagnostics would have been left out of them anyway. -/
theorem exec_result : (exec fed maxBytes).result all = result fed maxBytes all := by
  have hdiagnostics : CmdOutput.diagnostics ((all.printed .err).take MAX_FIELD_BYTES) =
      CmdOutput.diagnostics (all.printed .err) := by
    rw [CmdOutput.diagnostics, CmdOutput.diagnostics, List.take_take, Nat.min_self]
  rw [Collector.result, result, CmdOutput.of]
  by_cases hlong : maxBytes < (all.printed .out).length
  · rw [if_pos (exec_refuses_iff.mpr hlong), if_pos hlong]
    rfl
  · rw [if_neg (mt exec_refuses_iff.mp hlong), if_neg hlong, ← hdiagnostics]
    rfl

end

/-- Whatever the order of their steps, `lpass` and its readers never wait on each other for
ever, and the call comes to what `lpass` prints when it is fed the line: unless it is cut
short, or the diagnostics fill their pipe behind the limit, where it waits for the clock. -/
theorem exec_ends_alike (lpass : Process (Option ℤ) UInt8) (password : Option Bytes)
    (maxBytes : ℕ) (room : Room) (hline : ((password.map fedLine).getD []).length ≤ room.stdin)
    (houtput : ∀ o, 0 < room.output o) :
    (∃ bound, ∀ acts s, Executes lpass password maxBytes room acts s → acts.length ≤ bound) ∧
    (∀ acts r, Executes lpass password maxBytes room acts (.returned r) →
      r = result password.isSome maxBytes (printed lpass password) ∨
        .cut r ∈ acts ∧ ∃ e, r = .error e) ∧
    (ErrFits room (printed lpass password) →
      ∀ acts s, Executes lpass password maxBytes room acts s →
        (∃ r, s = .returned r) ∨ CanGoOn (exec password.isSome maxBytes) s) ∧
    (((printed lpass password).printed .out).length ≤ maxBytes →
      ¬ ErrFits room (printed lpass password) →
      ∀ acts r, Executes lpass password maxBytes room acts (.returned r) →
        .cut r ∈ acts ∧ ∃ e, r = .error e) := by
  have herror : ∀ r, (exec password.isSome maxBytes).Cut r → ∃ e, r = .error e := by
    rintro r (rfl | ⟨why, rfl⟩)
    · exact ⟨_, rfl⟩
    · exact ⟨_, rfl⟩
  have hlength : ∀ acts s, Executes lpass password maxBytes room acts s →
      acts.length + weight s ≤ weight (.start lpass (password.map fedLine) room) :=
    fun acts s h => Calls.length_le h
  refine ⟨⟨_, fun acts s h => Nat.le_trans (Nat.le_add_right ..) (hlength acts s h)⟩, ?_, ?_, ?_⟩
  · intro acts r h
    rcases Calls.result h with hresult | ⟨hcut, hr⟩
    · exact .inl (hresult.trans exec_result)
    · exact .inr ⟨hcut, herror r hr⟩
  · intro hfits acts s h
    exact Calls.canGoOn h hline houtput (exec_fits_iff.mpr hfits)
  · intro hout hlong acts r h
    have hrefuses : ¬ (exec password.isSome maxBytes).Refuses (printed lpass password) :=
      mt exec_refuses_iff.mp (Nat.not_lt.mpr hout)
    obtain ⟨hcut, hr⟩ := Calls.cut_of_not_fits h hrefuses (mt exec_fits_iff.mp hlong)
    exact ⟨hcut, herror r hr⟩

/-- As the vault's client does, when it says the first byte it is fed. -/
theorem exec_ends_alike_echo :
    (fedLine [112]).length ≤ 65536 ∧
      ∃ bound, ∀ acts s, Executes (.read fun byte => .write .out (byte.getD 0) (.exit (some 0)))
        (some [112]) MAX_FIELD_BYTES ⟨65536, fun _ => 65536⟩ acts s → acts.length ≤ bound :=
  ⟨by decide, (exec_ends_alike _ (some [112]) MAX_FIELD_BYTES ⟨65536, fun _ => 65536⟩ (by decide)
    fun _ => (by decide : 0 < 65536)).1⟩

end LastpassSshAgent.LpassExec
