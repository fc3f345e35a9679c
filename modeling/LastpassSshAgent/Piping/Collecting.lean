import LastpassSshAgent.Piping.Child
import LastpassSshAgent.Transitions.Runs

/-!
# Collecting what a process prints

A caller feeds a process its input, reads both outputs side by side, each as far as it is
wanted, and waits for the exit. Whenever the process and the readers take their steps, what
the caller comes to is decided by what the process prints when it is fed this input; and
neither waits on the other for ever, unless an output is left to fill its pipe.
-/

namespace Piping

variable {κ σ ρ : Type}

/-! ### How much is read of an output -/

inductive Bound where
  | whole
  | refuse (cap : ℕ)
  | stop (limit : ℕ)

inductive Reader (σ : Type) where
  | going (read : List σ)
  | returned (read : List σ)
  | refused

def Reader.read : Reader σ → List σ
  | .going read => read
  | .returned read => read
  | .refused => []

def Reader.turns : Reader σ → ℕ
  | .going _ => 1
  | _ => 0

namespace Bound

def kept : Bound → List σ → List σ
  | .stop limit, printed => printed.take limit
  | _, printed => printed

def Refuses : Bound → ℕ → Prop
  | .refuse cap, length => cap < length
  | _, _ => False

instance (b : Bound) (length : ℕ) : Decidable (b.Refuses length) :=
  match b with
  | .whole => inferInstanceAs (Decidable False)
  | .refuse cap => inferInstanceAs (Decidable (cap < length))
  | .stop _ => inferInstanceAs (Decidable False)

/-- So much has been read, and no more will be. -/
def Stopped : Bound → ℕ → Prop
  | .stop limit, length => length = limit
  | _, _ => False

/-- How far a reader goes on. -/
def Wants : Bound → ℕ → Prop
  | .stop limit, length => length ≤ limit
  | _, _ => True

/-- What is not read of so much has room in its pipe. -/
def Fits : Bound → ℕ → ℕ → Prop
  | .stop limit, room, length => length ≤ limit + room
  | _, _, _ => True

/-- An empty read is the end; a cap is looked at before what was read is kept. -/
def next (b : Bound) (read more : List σ) : Reader σ :=
  if more.length = 0 then .returned read
  else if b.Refuses (read.length + more.length) then .refused
  else .going (read ++ more)

/-- A read of this many; at its limit a reader is at an end of its own. -/
def MayTake (b : Bound) (p : Pipe σ) (read : List σ) (count : ℕ) : Prop :=
  p.MayRead count ∧ b.Wants (read.length + count) ∨ count = 0 ∧ b.Stopped read.length

end Bound

/-- How a caller collects the outputs, and what it makes of them. -/
structure Collector (κ σ ρ : Type) where
  bound : Output → Bound
  refused : ρ
  finished : (Output → List σ) → κ → ρ
  Cut : ρ → Prop

/-! ### A call -/

/-- Where a call is: writing the rest of the input, reading, or waiting for the exit. -/
inductive Io (σ : Type) where
  | feeding (rest : List σ)
  | reading (readers : Output → Reader σ)
  | reaping (read : Output → List σ)

namespace Io

def start : Io σ := .reading fun _ => .going []

def later : Io σ → List σ
  | .feeding rest => rest
  | _ => []

def isFeeding : Io σ → Bool
  | .feeding _ => true
  | _ => false

def read : Io σ → Output → List σ
  | .feeding _, _ => []
  | .reading readers, o => (readers o).read
  | .reaping read, o => read o

/-- How many turns a call has still to take once nothing more is to be read. -/
def turns : Io σ → ℕ
  | .feeding _ => 4
  | .reading readers => 1 + (readers .out).turns + (readers .err).turns
  | .reaping _ => 1

end Io

inductive Call (κ σ ρ : Type) where
  | going (io : Io σ) (piped : Piped κ σ)
  | returned (result : ρ)

/-- The readers are joined: the first that refuses ends the call, and drops the other. -/
def Collector.joined (c : Collector κ σ ρ) (readers : Output → Reader σ) (piped : Piped κ σ) :
    Call κ σ ρ :=
  match readers .out, readers .err with
  | .refused, _ => .returned c.refused
  | _, .refused => .returned c.refused
  | .returned _, .returned _ => .going (.reaping fun o => (readers o).read) piped
  | _, _ => .going (.reading readers) piped

inductive CallAct (ρ : Type) where
  | child
  | feed (count : ℕ)
  | unread
  | fed
  | read (o : Output) (count : ℕ)
  | reaped
  | cut (result : ρ)

/-- A step of the child, of the call, or of what cuts the call short. -/
inductive CallStep (c : Collector κ σ ρ) : Call κ σ ρ → CallAct ρ → Call κ σ ρ → Prop
  | child (io : Io σ) (p p' : Piped κ σ) (h : ChildStep p p') :
      CallStep c (.going io p) .child (.going io p')
  | feed (front rest : List σ) (p : Piped κ σ) (process : Process κ σ)
      (hchild : p.child = .running process) (hfront : 0 < front.length)
      (room : p.stdin.held.length + front.length ≤ p.stdin.capacity) :
      CallStep c (.going (.feeding (front ++ rest)) p) (.feed front.length)
        (.going (.feeding rest) (p.feed front room))
  | unread (rest : List σ) (p : Piped κ σ) (status : κ) (hchild : p.child = .exited status) :
      CallStep c (.going (.feeding rest) p) .unread (.going .start p.closeInput)
  | fed (p : Piped κ σ) : CallStep c (.going (.feeding []) p) .fed (.going .start p.closeInput)
  | read (readers : Output → Reader σ) (p : Piped κ σ) (o : Output) (read : List σ) (count : ℕ)
      (hgoing : readers o = .going read) (hread : (c.bound o).MayTake (p.output o) read count) :
      CallStep c (.going (.reading readers) p) (.read o count)
        (c.joined (Function.update readers o ((c.bound o).next read ((p.held o).take count)))
          (p.take o count))
  | reaped (read : Output → List σ) (p : Piped κ σ) (status : κ)
      (hchild : p.child = .exited status) :
      CallStep c (.going (.reaping read) p) .reaped (.returned (c.finished read status))
  | cut (io : Io σ) (p : Piped κ σ) (r : ρ) (hr : c.Cut r) :
      CallStep c (.going io p) (.cut r) (.returned r)

structure Room where
  stdin : ℕ
  output : Output → ℕ

/-- The process was started. Unfed, its input is at its end from the start. -/
def Call.start (process : Process κ σ) (input : Option (List σ)) (room : Room) : Call κ σ ρ :=
  .going (input.elim .start .feeding)
    ⟨.empty room.stdin input.isNone, fun o => .empty (room.output o) false, .running process⟩

abbrev Calls (c : Collector κ σ ρ) (process : Process κ σ) (input : Option (List σ)) (room : Room)
    (acts : List (CallAct ρ)) (s : Call κ σ ρ) : Prop :=
  Transitions.Runs (CallStep c) (.start process input room) acts s

namespace Collector

variable (c : Collector κ σ ρ)

def Refuses (printed : Transcript κ σ) : Prop :=
  ∃ o, (c.bound o).Refuses (printed.printed o).length

instance (printed : Transcript κ σ) : Decidable (c.Refuses printed) :=
  decidable_of_iff ((c.bound .out).Refuses (printed.printed .out).length ∨
      (c.bound .err).Refuses (printed.printed .err).length)
    ⟨fun h => h.elim (fun h => ⟨.out, h⟩) fun h => ⟨.err, h⟩,
      fun ⟨o, h⟩ => by cases o with | out => exact .inl h | err => exact .inr h⟩

def result (printed : Transcript κ σ) : ρ :=
  if c.Refuses printed then c.refused
  else c.finished (fun o => (c.bound o).kept (printed.printed o)) printed.status

/-- Neither output fills its pipe behind what is read of it. -/
def Fits (room : Room) (printed : Transcript κ σ) : Prop :=
  ∀ o, (c.bound o).Fits (room.output o) (printed.printed o).length

end Collector

/-! ### What holds of a call -/

namespace Bound

variable {b : Bound} {printed read : List σ} {length more room : ℕ}

theorem kept_of_wants (h : b.Wants printed.length) : b.kept printed = printed := by
  cases b with
  | stop limit => exact List.take_of_length_le h
  | _ => rfl

theorem kept_of_stopped (h : b.Stopped read.length) (rest : List σ) :
    b.kept (read ++ rest) = read := by
  cases b with
  | stop limit =>
    have hlimit : read.length = limit := h
    exact List.take_left' hlimit
  | _ => exact h.elim

theorem not_refuses_of_stopped (h : b.Stopped length) (length' : ℕ) : ¬ b.Refuses length' := by
  cases b with
  | stop limit => exact id
  | _ => exact h.elim

theorem Refuses.mono (h : b.Refuses length) (hle : length ≤ more) : b.Refuses more := by
  cases b with
  | refuse cap => exact Nat.lt_of_lt_of_le h hle
  | _ => exact h.elim

theorem length_kept_le (h : b.Wants read.length) (hpipe : more ≤ room) :
    b.Fits room (read.length + more) := by
  cases b with
  | stop limit => exact Nat.add_le_add h hpipe
  | _ => trivial

end Bound

section

variable (b : Bound) (printed : List σ) (p : Pipe σ)

/-- Where a reader has come. It stops at the end of its pipe, or at its bound. -/
def ReaderReached : Reader σ → Prop
  | .going read => b.Wants read.length ∧ ¬ b.Refuses read.length
  | .returned read => b.Wants read.length ∧ ¬ b.Refuses printed.length ∧ read = b.kept printed ∧
      (p.held = [] ∧ p.ended = true ∨ b.Stopped read.length)
  | .refused => b.Refuses printed.length

end

variable (c : Collector κ σ ρ) (printed : Transcript κ σ) (p : Piped κ σ)

def Io.Reached : Io σ → Prop
  | .feeding _ => True
  | .reading readers =>
    (∀ o, ReaderReached (c.bound o) (printed.printed o) (p.output o) (readers o)) ∧
      (∃ o read, readers o = .going read) ∧ ∀ o, readers o ≠ .refused
  | .reaping read =>
    ∀ o, ReaderReached (c.bound o) (printed.printed o) (p.output o) (.returned (read o))

/-- What is read, what is in the pipes and what is still to be written make up all that the
process prints. -/
structure Holds (input : List σ) (room : Room) (io : Io σ) : Prop where
  total : (p.unread io.later).after io.read = printed
  closed : p.Closed
  ended : p.stdin.ended = !io.isFeeding
  input : p.stdin.held.length + io.later.length ≤ input.length
  stdin : p.stdin.capacity = room.stdin
  output : ∀ o, (p.output o).capacity = room.output o

structure Keeps (input : List σ) (room : Room) (io : Io σ) : Prop extends
    Holds printed p input room io where
  reached : io.Reached c printed p

variable {c printed p} {p' : Piped κ σ} {input : List σ} {room : Room} {io io' : Io σ} {o : Output}
  {read : List σ} {readers : Output → Reader σ} {count : ℕ}

theorem reached_start : Io.start.Reached c printed p := by
  refine ⟨fun o => ?_, ⟨.out, [], rfl⟩, fun o => nofun⟩
  show (c.bound o).Wants 0 ∧ ¬ (c.bound o).Refuses 0
  cases c.bound o with
  | whole => exact ⟨trivial, id⟩
  | refuse cap => exact ⟨trivial, Nat.not_lt_zero cap⟩
  | stop limit => exact ⟨Nat.zero_le limit, id⟩

theorem later_of_not_isFeeding (h : io.isFeeding = false) : io.later = [] := by
  cases io with
  | feeding rest => cases h
  | _ => rfl

theorem ReaderReached.keep {b : Bound} {all : List σ} {q q' : Pipe σ} {r : Reader σ}
    (h : ReaderReached b all q r)
    (hq : q.held = [] ∧ q.ended = true → q'.held = [] ∧ q'.ended = true) :
    ReaderReached b all q' r := by
  cases r with
  | going read => exact h
  | returned read => exact ⟨h.1, h.2.1, h.2.2.1, h.2.2.2.imp_left hq⟩
  | refused => exact h

namespace Keeps

theorem later_of_ended (h : Keeps c printed p input room io) (hended : p.stdin.ended = true) :
    io.later = [] :=
  later_of_not_isFeeding (by simpa [hended] using h.ended.symm)

theorem child (h : Keeps c printed p input room io) (hstep : ChildStep p p') :
    Keeps c printed p' input room io := by
  have hopen : ∀ o, (p.output o).held = [] ∧ (p.output o).ended = true →
      (p'.output o).held = [] ∧ (p'.output o).ended = true :=
    fun o hend => absurd ((hstep.open_of_closed h.closed o).symm.trans hend.2) Bool.false_ne_true
  refine ⟨⟨?_, hstep.closed h.closed, hstep.stdin_ended.trans h.ended, ?_, ?_, fun o => ?_⟩, ?_⟩
  · rw [hstep.unread_eq h.later_of_ended, h.total]
  · exact Nat.le_trans (Nat.add_le_add_right hstep.stdin_length_le _) h.input
  · exact hstep.stdin_capacity.trans h.stdin
  · exact (hstep.output_capacity o).trans (h.output o)
  · cases io with
    | feeding rest => trivial
    | reading readers => exact ⟨fun o => (h.reached.1 o).keep (hopen o), h.reached.2⟩
    | reaping read => exact fun o => (h.reached o).keep (hopen o)

theorem feed {front rest : List σ} (h : Keeps c printed p input room (.feeding (front ++ rest)))
    (hroom : p.stdin.held.length + front.length ≤ p.stdin.capacity) :
    Keeps c printed (p.feed front hroom) input room (.feeding rest) := by
  refine ⟨⟨?_, h.closed, h.ended, ?_, h.stdin, h.output⟩, trivial⟩
  · rw [p.unread_feed]
    exact h.total
  · have hline : p.stdin.held.length + (front ++ rest).length ≤ input.length := h.input
    have hheld : (p.feed front hroom).stdin.held = p.stdin.held ++ front := rfl
    rw [hheld, List.length_append]
    rw [List.length_append] at hline
    exact (Nat.add_assoc ..).trans_le hline

theorem start_reading {rest : List σ} (h : Keeps c printed p input room (.feeding rest))
    (hdone : rest = [] ∨ ∃ status, p.child = .exited status) :
    Keeps c printed p.closeInput input room .start := by
  refine ⟨⟨?_, h.closed, rfl, ?_, h.stdin, h.output⟩, reached_start⟩
  · have htotal : (p.unread rest).after (fun _ => []) = printed := h.total
    rw [← htotal]
    rcases hdone with rfl | ⟨status, hchild⟩
    · rfl
    · rw [p.unread_of_exited rest hchild, p.unread_closeInput, p.unread_of_exited _ hchild]
      rfl
  · exact Nat.le_trans (Nat.le_add_right ..) h.input

end Keeps

/-! ### The readers -/

namespace Holds

theorem printed_eq (h : Holds printed p input room io) (o : Output) :
    printed.printed o = io.read o ++ (p.unread io.later).printed o := by
  rw [← h.total]
  rfl

theorem congr (h : Holds printed p input room io) (hlater : io'.later = io.later)
    (hfeeding : io'.isFeeding = io.isFeeding) (hread : io'.read = io.read) :
    Holds printed p input room io' := by
  refine ⟨?_, h.closed, ?_, ?_, h.stdin, h.output⟩
  · rw [hlater, hread]
    exact h.total
  · rw [hfeeding]
    exact h.ended
  · rw [hlater]
    exact h.input

theorem take (h : Holds printed p input room (.reading readers)) (hgoing : readers o = .going read)
    (count : ℕ) : Holds printed (p.take o count) input room
      (.reading (Function.update readers o (.going (read ++ (p.held o).take count)))) := by
  refine ⟨?_, (p.closed_take o count).mpr h.closed, h.ended, h.input, h.stdin, fun o' => ?_⟩
  · rw [← h.total]
    refine Transcript.ext (funext fun o' => ?_) rfl
    show (Function.update readers o _ o').read ++ ((p.take o count).unread []).printed o' =
      (readers o').read ++ (p.unread []).printed o'
    by_cases ho : o' = o
    · subst ho
      rw [Function.update_self, hgoing, ← p.unread_take_self [] o' count, ← List.append_assoc]
      rfl
    · rw [Function.update_of_ne ho, p.unread_take_of_ne [] ho]
  · rw [p.capacity_take]
    exact h.output o'

theorem read_at_end (h : Holds printed p input room io) (hheld : (p.output o).held = [])
    (hended : (p.output o).ended = true) : io.read o = printed.printed o := by
  obtain ⟨status, hchild⟩ := h.closed.exited hended
  have hunread : (p.unread io.later).printed o = p.held o := by
    rw [p.unread_of_exited io.later hchild]
  rw [h.printed_eq, hunread, Piped.held, hheld, List.append_nil]

end Holds

theorem next_reached (h : Holds printed p input room (.reading readers))
    (hgoing : readers o = .going read)
    (hreached : (c.bound o).Wants read.length ∧ ¬ (c.bound o).Refuses read.length)
    (hread : (c.bound o).MayTake (p.output o) read count) :
    ReaderReached (c.bound o) (printed.printed o) ((p.take o count).output o)
      ((c.bound o).next read ((p.held o).take count)) := by
  have hprinted : printed.printed o = read ++ (p.unread []).printed o := by
    rw [h.printed_eq o]
    show (readers o).read ++ _ = _
    rw [hgoing]
    rfl
  rcases hread with ⟨⟨hpos, hle⟩ | ⟨rfl, hheld, hended⟩, hwants⟩ | ⟨rfl, hstopped⟩
  · have hchunk : ((p.held o).take count).length = count := by
      rw [List.length_take, Nat.min_eq_left (show count ≤ (p.held o).length from hle)]
    rw [Bound.next, if_neg (by rw [hchunk]; exact Nat.ne_of_gt hpos), hchunk]
    split_ifs with hlong
    · refine hlong.mono ?_
      rw [hprinted, List.length_append]
      exact Nat.add_le_add_left (Nat.le_trans hle (p.held_le_unread [] o)) _
    · show (c.bound o).Wants (read ++ _).length ∧ ¬ (c.bound o).Refuses (read ++ _).length
      rw [List.length_append, hchunk]
      exact ⟨hwants, hlong⟩
  · have hall : read = printed.printed o := by
      rw [← h.read_at_end hheld hended]
      show read = (readers o).read
      rw [hgoing]
      rfl
    refine ⟨hreached.1, hall ▸ hreached.2, ?_, .inl ⟨?_, ?_⟩⟩
    · rw [← hall]
      exact (Bound.kept_of_wants hreached.1).symm
    · show (p.take o 0).held o = []
      rw [p.held_take_self, Piped.held, hheld, List.drop_nil]
    · rw [p.ended_take]
      exact hended
  · refine ⟨hreached.1, Bound.not_refuses_of_stopped hstopped _, ?_, .inr hstopped⟩
    rw [hprinted]
    exact (Bound.kept_of_stopped hstopped _).symm

theorem holds_next (h : Holds printed p input room (.reading readers))
    (hgoing : readers o = .going read)
    (hrefused : (c.bound o).next read ((p.held o).take count) ≠ .refused) :
    Holds printed (p.take o count) input room
      (.reading (Function.update readers o ((c.bound o).next read ((p.held o).take count)))) := by
  have htake := h.take hgoing count
  rw [Bound.next] at hrefused ⊢
  split_ifs with hend hlong
  · refine htake.congr rfl rfl (funext fun o' => ?_)
    by_cases ho : o' = o
    · subst ho
      simp [Io.read, Reader.read, List.length_eq_zero_iff.mp hend]
    · simp [Io.read, ho]
  · rw [if_neg hend, if_pos hlong] at hrefused
    exact absurd rfl hrefused
  · exact htake

/-! ### Every run -/

/-- A call that has returned was cut short, or it has its result, and was not in the way of
the process. -/
def Sound (c : Collector κ σ ρ) (input : List σ) (room : Room) (printed : Transcript κ σ)
    (acts : List (CallAct ρ)) : Call κ σ ρ → Prop
  | .going io p => Keeps c printed p input room io
  | .returned r => r = c.result printed ∧ (c.Refuses printed ∨ c.Fits room printed) ∨
      .cut r ∈ acts ∧ c.Cut r

variable {acts : List (CallAct ρ)} {a : CallAct ρ} {s t : Call κ σ ρ}

theorem result_of_refuses (h : c.Refuses printed) : c.result printed = c.refused := if_pos h

theorem sound_refused {r : Reader σ}
    (h : ReaderReached (c.bound o) (printed.printed o) (p.output o) r) (hr : r = .refused) :
    Sound c input room printed acts (.returned c.refused) := by
  subst hr
  exact .inl ⟨(result_of_refuses ⟨o, h⟩).symm, .inl ⟨o, h⟩⟩

theorem sound_joined (hholds : (∀ o, readers o ≠ .refused) →
      Holds printed p input room (.reading readers))
    (hreached : ∀ o, ReaderReached (c.bound o) (printed.printed o) (p.output o) (readers o)) :
    Sound c input room printed acts (c.joined readers p) := by
  have hgoing : ∀ o read, readers o = .going read → (∀ o, readers o ≠ .refused) →
      Sound c input room printed acts (.going (.reading readers) p) :=
    fun o read ho hrefused => ⟨hholds hrefused, hreached, ⟨o, read, ho⟩, hrefused⟩
  cases hout : readers .out with
  | refused =>
    rw [Collector.joined, hout]
    exact sound_refused (hreached .out) hout
  | going out =>
    cases herr : readers .err with
    | refused =>
      rw [Collector.joined, hout, herr]
      exact sound_refused (hreached .err) herr
    | _ =>
      rw [Collector.joined, hout, herr]
      refine hgoing .out out hout fun o => ?_
      cases o <;> simp [hout, herr]
  | returned out =>
    cases herr : readers .err with
    | refused =>
      rw [Collector.joined, hout, herr]
      exact sound_refused (hreached .err) herr
    | going err =>
      rw [Collector.joined, hout, herr]
      refine hgoing .err err herr fun o => ?_
      cases o <;> simp [hout, herr]
    | returned err =>
      have hreturned : ∀ o, readers o = .returned (readers o).read := by
        intro o
        cases o with
        | out => rw [hout]; rfl
        | err => rw [herr]; rfl
      have hall := hholds fun o => by rw [hreturned o]; nofun
      rw [Collector.joined, hout, herr]
      exact ⟨hall.congr rfl rfl rfl, fun o => hreturned o ▸ hreached o⟩

theorem printed_of_exited {status : κ} (h : Holds printed p input room io)
    (hchild : p.child = .exited status) (o : Output) :
    printed.printed o = io.read o ++ p.held o := by
  rw [h.printed_eq, p.unread_of_exited _ hchild]

theorem status_of_exited {status : κ} (h : Holds printed p input room io)
    (hchild : p.child = .exited status) : printed.status = status := by
  rw [← h.total, p.unread_of_exited _ hchild]
  rfl

theorem sound_reaped {status : κ} {read : Output → List σ}
    (h : Keeps c printed p input room (.reaping read)) (hchild : p.child = .exited status) :
    Sound c input room printed acts (.returned (c.finished read status)) := by
  have hkept : read = fun o => (c.bound o).kept (printed.printed o) :=
    funext fun o => (h.reached o).2.2.1
  have hrefuses : ¬ c.Refuses printed := fun ⟨o, ho⟩ => (h.reached o).2.1 ho
  refine .inl ⟨?_, .inr fun o => ?_⟩
  · rw [Collector.result, if_neg hrefuses, ← hkept, status_of_exited h.toHolds hchild]
  · rw [printed_of_exited h.toHolds hchild, List.length_append, ← h.output o]
    exact Bound.length_kept_le (h.reached o).1 (p.output o).fits

theorem Sound.step (h : Sound c input room printed acts s) (hstep : CallStep c s a t) :
    Sound c input room printed (acts ++ [a]) t := by
  cases hstep with
  | child io p p' hchild => exact Keeps.child h hchild
  | feed front rest p process hchild hfront hroom => exact Keeps.feed h hroom
  | unread rest p status hchild => exact Keeps.start_reading h (.inr ⟨status, hchild⟩)
  | fed p => exact Keeps.start_reading h (.inl rfl)
  | read readers p o read count hgoing hread =>
    have hkeeps : Keeps c printed p input room (.reading readers) := h
    have hreached := hkeeps.reached.1
    have hwithin := hreached o
    rw [hgoing] at hwithin
    have hnext := next_reached hkeeps.toHolds hgoing hwithin hread
    refine sound_joined (fun hrefused => holds_next hkeeps.toHolds hgoing ?_) fun o' => ?_
    · simpa using hrefused o
    · by_cases ho : o' = o
      · subst ho
        rw [Function.update_self]
        exact hnext
      · rw [Function.update_of_ne ho]
        refine (hreached o').keep fun hend => ?_
        have hsame : (p.take o count).output o' = p.output o' := Function.update_of_ne ho ..
        rw [hsame]
        exact hend
  | reaped read p status hchild => exact sound_reaped h hchild
  | cut io p r hr => exact .inr ⟨by simp, hr⟩

theorem sound_start (process : Process κ σ) (input : Option (List σ)) (room : Room) :
    Sound c (input.getD []) room (process.transcript (input.getD [])) acts
      (.start process input room) := by
  cases input with
  | none => exact ⟨⟨rfl, fun o => rfl, rfl, Nat.le_refl _, rfl, fun o => rfl⟩, reached_start⟩
  | some input => exact ⟨⟨rfl, fun o => rfl, rfl, by simp [Io.later], rfl, fun o => rfl⟩, trivial⟩

theorem Calls.sound {process : Process κ σ} {input : Option (List σ)}
    (h : Calls c process input room acts s) :
    Sound c (input.getD []) room (process.transcript (input.getD [])) acts s :=
  h.invariant (Sound c _ room _) (sound_start process input room)
    fun _ _ _ _ hsound hstep => hsound.step hstep

/-! ### A call always goes on -/

/-- Not by being cut short. -/
def CanGoOn (c : Collector κ σ ρ) (s : Call κ σ ρ) : Prop :=
  ∃ a t, CallStep c s a t ∧ ∀ r, a ≠ .cut r

theorem canGoOn_feeding {rest : List σ} (h : Keeps c printed p input room (.feeding rest))
    (hinput : input.length ≤ room.stdin) : CanGoOn c (.going (.feeding rest) p) := by
  cases rest with
  | nil => exact ⟨.fed, _, .fed p, nofun⟩
  | cons item rest =>
    cases hchild : p.child with
    | exited status => exact ⟨.unread, _, .unread _ p status hchild, nofun⟩
    | running process =>
      have hroom : p.stdin.held.length + (item :: rest).length ≤ p.stdin.capacity := by
        rw [h.stdin]
        exact Nat.le_trans h.input hinput
      have hstep : CallStep c (.going (.feeding (item :: rest ++ [])) p) _ _ :=
        .feed (item :: rest) [] p process hchild (Nat.succ_pos _) hroom
      rw [List.append_nil] at hstep
      exact ⟨_, _, hstep, nofun⟩

theorem canGoOn_read (h : Keeps c printed p input room (.reading readers))
    (hgoing : readers o = .going read) (hread : p.held o ≠ [] ∨ (p.output o).ended = true) :
    CanGoOn c (.going (.reading readers) p) := by
  have hwants : (c.bound o).Wants read.length := by
    have hreached := h.reached.1 o
    rw [hgoing] at hreached
    exact hreached.1
  have hstep : ∀ count, (c.bound o).MayTake (p.output o) read count →
      CanGoOn c (.going (.reading readers) p) := fun count hcount =>
    ⟨_, _, .read readers p o read count hgoing hcount, nofun⟩
  by_cases hheld : p.held o = []
  · exact hstep 0 (.inl ⟨.inr ⟨rfl, hheld, hread.resolve_left (absurd hheld)⟩, hwants⟩)
  · by_cases hmore : (c.bound o).Wants (read.length + 1)
    · exact hstep 1 (.inl ⟨.inl ⟨Nat.one_pos, List.length_pos_iff.mpr hheld⟩, hmore⟩)
    · refine hstep 0 (.inr ⟨rfl, ?_⟩)
      revert hwants hmore
      cases c.bound o with
      | stop limit => exact fun hle hlt => Nat.le_antisymm hle (Nat.le_of_not_lt hlt)
      | _ => exact fun _ habsurd => absurd trivial habsurd

/-- No output that has been read to its bound fills its pipe. -/
theorem not_blocked (h : Holds printed p input room io) (hfits : c.Fits room printed)
    (hstopped : (c.bound o).Stopped (io.read o).length)
    (hmore : (p.output o).capacity < ((p.unread io.later).printed o).length) : False := by
  have hlength := hfits o
  rw [h.printed_eq o, List.length_append, ← h.output o] at hlength
  revert hstopped hlength
  cases c.bound o with
  | stop limit =>
    intro hread hle
    have hread' : (io.read o).length = limit := hread
    have hle' : (io.read o).length + ((p.unread io.later).printed o).length ≤
        limit + (p.output o).capacity := hle
    omega
  | _ => exact fun habsurd _ => habsurd

theorem stopped_of_returned {all : List σ} {b : Bound} {process : Process κ σ} (hclosed : p.Closed)
    (hchild : p.child = .running process)
    (h : ReaderReached b all (p.output o) (.returned read)) : b.Stopped read.length := by
  refine h.2.2.2.resolve_left fun hend => ?_
  rw [Piped.Closed, hchild] at hclosed
  exact absurd ((hclosed o).symm.trans hend.2) Bool.false_ne_true

theorem canGoOn_running {process : Process κ σ} (h : Keeps c printed p input room io)
    (hfeeding : io.isFeeding = false) (hchild : p.child = .running process)
    (houtput : ∀ o, 0 < room.output o) (hfits : c.Fits room printed) : CanGoOn c (.going io p) := by
  have hended : p.stdin.ended = true := by
    rw [h.ended, hfeeding]
    rfl
  rcases ChildStep.exists_or_blocked io.later hchild (.inr hended) with
    ⟨p', hstep⟩ | ⟨o, hfull, hmore⟩
  · exact ⟨.child, _, .child io p p' hstep, nofun⟩
  · have hreturned : ∀ read, ReaderReached (c.bound o) (printed.printed o) (p.output o)
        (.returned read) → io.read o = read → CanGoOn c (.going io p) := fun read hread heq =>
      (not_blocked h.toHolds hfits
        (heq ▸ stopped_of_returned h.closed hchild hread) hmore).elim
    cases io with
    | feeding rest => cases hfeeding
    | reaping read => exact hreturned (read o) (h.reached o) rfl
    | reading readers =>
      cases hreader : readers o with
      | going read =>
        refine canGoOn_read h hreader (.inl fun hnil => ?_)
        rw [hnil, h.output o] at hfull
        exact Nat.ne_of_lt (houtput o) hfull
      | returned read =>
        refine hreturned read (hreader ▸ h.reached.1 o) ?_
        show (readers o).read = read
        rw [hreader]
        rfl
      | refused => exact absurd hreader (h.reached.2.2 o)

theorem Keeps.canGoOn (h : Keeps c printed p input room io) (hinput : input.length ≤ room.stdin)
    (houtput : ∀ o, 0 < room.output o) (hfits : c.Fits room printed) : CanGoOn c (.going io p) := by
  cases hchild : p.child with
  | running process =>
    cases io with
    | feeding rest => exact canGoOn_feeding h hinput
    | _ => exact canGoOn_running h rfl hchild houtput hfits
  | exited status =>
    cases io with
    | feeding rest => exact canGoOn_feeding h hinput
    | reading readers =>
      obtain ⟨-, ⟨o, read, hgoing⟩, -⟩ := h.reached
      exact canGoOn_read h hgoing (.inr (h.closed.ended_of_exited hchild o))
    | reaping read => exact ⟨.reaped, _, .reaped read p status hchild, nofun⟩

/-! ### A call comes to its end -/

/-- What is still to be written, done and read, and how far the call has to go. -/
def weight : Call κ σ ρ → ℕ
  | .going io p => io.later.length + p.steps io.later +
      (((p.unread io.later).printed .out).length + ((p.unread io.later).printed .err).length) +
      io.turns
  | .returned _ => 0

theorem weight_joined_le :
    weight (c.joined readers p) ≤ weight (.going (.reading readers) p : Call κ σ ρ) := by
  cases hout : readers .out with
  | refused =>
    rw [Collector.joined, hout]
    exact Nat.zero_le _
  | going out =>
    cases herr : readers .err with
    | refused =>
      rw [Collector.joined, hout, herr]
      exact Nat.zero_le _
    | _ =>
      rw [Collector.joined, hout, herr]
  | returned out =>
    cases herr : readers .err with
    | refused =>
      rw [Collector.joined, hout, herr]
      exact Nat.zero_le _
    | going err =>
      rw [Collector.joined, hout, herr]
    | returned err =>
      rw [Collector.joined, hout, herr]
      exact Nat.add_le_add_left (Nat.le_add_right_of_le (Nat.le_add_right 1 _)) _

theorem turns_next_le {b : Bound} {more : List σ} : (b.next read more).turns ≤ 1 := by
  rw [Bound.next]
  split_ifs <;> simp [Reader.turns]

theorem turns_next_nil {b : Bound} : (b.next read []).turns = 0 := rfl

theorem weight_read_lt (hgoing : readers o = .going read)
    (hread : (c.bound o).MayTake (p.output o) read count) :
    weight (.going (.reading (Function.update readers o
        ((c.bound o).next read ((p.held o).take count)))) (p.take o count) : Call κ σ ρ) <
      weight (.going (.reading readers) p : Call κ σ ρ) := by
  have hle : count ≤ (p.held o).length := by
    rcases hread with ⟨⟨-, hle⟩ | ⟨rfl, -⟩, -⟩ | ⟨rfl, -⟩
    · exact hle
    · exact Nat.zero_le _
    · exact Nat.zero_le _
  have hlength : (((p.take o count).unread []).printed o).length + count =
      ((p.unread []).printed o).length := by
    rw [← p.unread_take_self [] o count, List.length_append, List.length_take,
      Nat.min_eq_left hle, Nat.add_comm]
  have hturns : ((c.bound o).next read ((p.held o).take count)).turns ≤ 1 ∧
      (count = 0 → ((c.bound o).next read ((p.held o).take count)).turns = 0) := by
    refine ⟨turns_next_le, ?_⟩
    rintro rfl
    exact turns_next_nil
  have hone : (readers o).turns = 1 := by
    rw [hgoing]
    rfl
  cases o with
  | out =>
    have hother := p.unread_take_of_ne [] (show Output.err ≠ .out from nofun) count
    simp only [weight, Io.later, Io.turns, Piped.steps_take, Function.update_self, hother,
      Function.update_of_ne (show Output.err ≠ .out from nofun)]
    omega
  | err =>
    have hother := p.unread_take_of_ne [] (show Output.out ≠ .err from nofun) count
    simp only [weight, Io.later, Io.turns, Piped.steps_take, Function.update_self, hother,
      Function.update_of_ne (show Output.out ≠ .err from nofun)]
    omega

theorem one_le_turns (io : Io σ) : 1 ≤ io.turns := by
  cases io with
  | feeding rest => exact Nat.le_add_left 1 3
  | reading readers => rw [Io.turns]; omega
  | reaping read => exact Nat.le_refl _

theorem weight_returned_lt (io : Io σ) (p : Piped κ σ) (r : ρ) :
    weight (.returned r : Call κ σ ρ) < weight (.going io p : Call κ σ ρ) :=
  Nat.lt_of_lt_of_le (one_le_turns io) (Nat.le_add_left ..)

theorem weight_start_lt {rest : List σ} (h : rest = [] ∨ ∃ status, p.child = .exited status) :
    weight (.going .start p.closeInput : Call κ σ ρ) <
      weight (.going (.feeding rest) p : Call κ σ ρ) := by
  have hsame : p.steps [] = p.steps rest ∧ p.unread [] = p.unread rest := by
    rcases h with rfl | ⟨status, hchild⟩
    · exact ⟨rfl, rfl⟩
    · refine ⟨?_, by rw [p.unread_of_exited _ hchild, p.unread_of_exited _ hchild]⟩
      simp [Piped.steps, hchild]
  have hstart : (Io.start : Io σ).turns = 3 := rfl
  have hlater : (Io.start : Io σ).later = [] := rfl
  simp only [weight, hstart, hlater, Piped.steps_closeInput, Piped.unread_closeInput, hsame.1,
    hsame.2, List.length_nil]
  simp only [Io.later, Io.turns]
  omega

theorem Sound.weight_lt (h : Sound c input room printed acts s) (hstep : CallStep c s a t) :
    weight t < weight s := by
  cases hstep with
  | child io p p' hchild =>
    have hkeeps : Keeps c printed p input room io := h
    have hsteps := hchild.steps_eq hkeeps.later_of_ended
    simp only [weight, hchild.unread_eq hkeeps.later_of_ended]
    omega
  | feed front rest p process hchild hfront hroom =>
    simp only [weight, Io.later, p.steps_feed, p.unread_feed, List.length_append]
    simp only [Io.turns]
    omega
  | unread rest p status hchild => exact weight_start_lt (.inr ⟨status, hchild⟩)
  | fed p => exact weight_start_lt (.inl rfl)
  | read readers p o read count hgoing hread =>
    exact Nat.lt_of_le_of_lt weight_joined_le (weight_read_lt hgoing hread)
  | reaped read p status hchild => exact weight_returned_lt _ p _
  | cut io p r hr => exact weight_returned_lt io p r

section

variable {process : Process κ σ} {fed : Option (List σ)}

/-- A call takes no more steps than this. -/
theorem Calls.length_le (h : Calls c process fed room acts s) :
    acts.length + weight s ≤ weight (.start process fed room : Call κ σ ρ) := by
  induction h with
  | start => exact Nat.le_of_eq (Nat.zero_add _)
  | @step acts a t u h hstep ih =>
    have hlt := (Calls.sound h).weight_lt hstep
    rw [List.length_append, List.length_singleton]
    omega

/-- A call comes to what the process prints when it is fed this input, or it is cut short. -/
theorem Calls.result (h : Calls c process fed room acts (.returned r)) :
    r = c.result (process.transcript (fed.getD [])) ∨ .cut r ∈ acts ∧ c.Cut r :=
  h.sound.imp_left And.left

theorem Calls.canGoOn (h : Calls c process fed room acts s)
    (hinput : (fed.getD []).length ≤ room.stdin) (houtput : ∀ o, 0 < room.output o)
    (hfits : c.Fits room (process.transcript (fed.getD []))) :
    (∃ r, s = .returned r) ∨ CanGoOn c s := by
  have hsound := h.sound
  cases s with
  | returned r => exact .inl ⟨r, rfl⟩
  | going io p => exact .inr (Keeps.canGoOn hsound hinput houtput hfits)

/-- Where an output fills its pipe, a call waits to be cut short. -/
theorem Calls.cut_of_not_fits (h : Calls c process fed room acts (.returned r))
    (hrefuses : ¬ c.Refuses (process.transcript (fed.getD [])))
    (hfits : ¬ c.Fits room (process.transcript (fed.getD []))) : .cut r ∈ acts ∧ c.Cut r := by
  rcases h.sound with ⟨-, habsurd | habsurd⟩ | hcut
  · exact absurd habsurd hrefuses
  · exact absurd habsurd hfits
  · exact hcut

end

end Piping
