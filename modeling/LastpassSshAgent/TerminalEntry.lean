import LastpassSshAgent.TerminalLines
import LastpassSshAgent.Transitions.Runs
import Mathlib.Logic.Function.Basic

/-!
# A passphrase typed at a terminal that others use too

Whoever is at the keyboard types when he likes, a prompt can be given up at each of its
waits, and the terminal is the shell's too. The prompts take their turns, one at a time; the
others wait for nobody. Where they leave a prompt its turn, the guard that it holds puts the
terminal back, and what was typed to a line that did not end is gone before they read on.
-/

namespace LastpassSshAgent.TerminalEntry

open Buffers Transitions

/-! ### The terminal -/

/-- A byte as typed: how many were typed before it, and the prompt it was typed to. -/
structure Key where
  byte : UInt8
  nth : ℕ
  prompt : Option ℕ
  deriving DecidableEq, Repr

structure Line where
  mode : Termios
  ready : List Key
  unfinished : List Key
  echoed : List Key
  deriving DecidableEq, Repr

def RETURN : UInt8 := 13

def ERASE : UInt8 := 127

def takes (mode : Termios) (byte : UInt8) : Option UInt8 :=
  if byte = RETURN then
    if mode.igncr then none else some (if mode.icrnl then NEWLINE else RETURN)
  else some byte

namespace Line

variable (line : Line)

def queue : List Key := line.ready ++ line.unfinished

def echo (key : Key) : Line :=
  if line.mode.echo then { line with echoed := line.echoed ++ [key] } else line

def enqueue (key : Key) : Line :=
  if line.mode.icanon ∧ key.byte = ERASE then
    { line with unfinished := line.unfinished.dropLast }
  else if line.mode.icanon ∧ key.byte ≠ NEWLINE then
    { line with unfinished := line.unfinished ++ [key] }
  else { line with ready := line.queue ++ [key], unfinished := [] }

def type (key : Key) : Line :=
  match takes line.mode key.byte with
  | none => line
  | some byte => (line.echo { key with byte }).enqueue { key with byte }

def flush : Line := { line with ready := [], unfinished := [] }

/-- Where lines are not assembled, what there is of one can be read. -/
def setMode (mode : Termios) : Line :=
  if mode.icanon then { line with mode }
  else { line with mode, ready := line.queue, unfinished := [] }

end Line

/-! ### The prompts -/

/-- What a prompt came to: a line, with the keys it was typed with, all after the first
`since`, and the one that ended it. -/
inductive Outcome where
  | entered (since : ℕ) (secret : CappedLine UInt8) (keys : List Key) (enter : Key)
  | failed (e : PromptError)

def Outcome.answer (maxBytes : ℕ) : Outcome → Except PromptError Bytes
  | .entered _ secret _ _ =>
    if secret.tooLong then .error (.tooLong maxBytes) else .ok secret.buffer.items
  | .failed e => .error e

/-- How far a prompt has come, and what it holds. From `writing` to `restoring` it has the
guard, which goes in two steps: the queue first, then the mode. -/
inductive Place where
  | idle
  | opening
  | discarding
  | looking (since : ℕ)
  | hiding (since : ℕ) (original : Termios)
  | writing (since : ℕ) (original : Termios)
  | reading (since : ℕ) (original : Termios) (secret : CappedLine UInt8) (keys : List Key)
  | ending (since : ℕ) (original : Termios) (secret : CappedLine UInt8) (keys : List Key)
      (enter : Key)
  | dropping (original : Termios) (e : PromptError)
  | restoring (original : Termios) (outcome : Outcome)
  | ended (outcome : Outcome)

structure Session where
  line : Line
  typed : ℕ
  /-- The mode the others last left the terminal in. -/
  outside : Termios
  /-- What the others have read. -/
  taken : List Key
  turn : Option ℕ
  place : ℕ → Place

/-- Echo is off, and a line is handed over whole on Enter. -/
def hidden (original : Termios) : Termios :=
  { original with echo := false, icanon := true, icrnl := true, igncr := false }

namespace Place

/-- Entry has begun, and nothing of it has been thrown away. -/
def entering : Place → Bool
  | .writing _ _ => true
  | .reading _ _ _ _ => true
  | .ending _ _ _ _ _ => true
  | .dropping _ _ => true
  | _ => false

end Place

namespace Session

variable (s : Session)

def mark : Option ℕ := s.turn.filter fun p => (s.place p).entering

def moved (p : ℕ) (place : Place) : Session := { s with place := Function.update s.place p place }

def closed (p : ℕ) (outcome : Outcome) : Session := { s.moved p (.ended outcome) with turn := none }

end Session

inductive Act where
  | key (byte : UInt8)
  | taken
  | flushed
  | mode (mode : Termios)
  | began (p : ℕ)
  | opened (p : ℕ)
  | discarded (p : ℕ)
  | looked (p : ℕ)
  | hid (p : ℕ)
  | wrote (p : ℕ)
  | read (p : ℕ)
  | finished (p : ℕ)
  | unavailable (p : ℕ) (e : PromptError)
  | gaveUp (p : ℕ) (e : PromptError)
  | dropped (p : ℕ)
  | restored (p : ℕ)
  deriving DecidableEq

/-- One step of whoever types, of the others, or of the prompt whose turn it is. Nothing keeps
the others from the terminal while a prompt is at it. -/
inductive Step (maxBytes : ℕ) : Session → Act → Session → Prop
  | key (s : Session) (byte : UInt8) : Step maxBytes s (.key byte)
      { s with line := s.line.type ⟨byte, s.typed, s.mark⟩, typed := s.typed + 1 }
  | taken (s : Session) (key : Key) (rest : List Key) (hready : s.line.ready = key :: rest) :
      Step maxBytes s .taken
      { s with line := { s.line with ready := rest }, taken := s.taken ++ [key] }
  | flushed (s : Session) : Step maxBytes s .flushed { s with line := s.line.flush }
  | mode (s : Session) (mode : Termios) :
      Step maxBytes s (.mode mode) { s with line := s.line.setMode mode, outside := mode }
  | began (s : Session) (p : ℕ) (hfree : s.turn = none) (hplace : s.place p = .idle) :
      Step maxBytes s (.began p) { s.moved p .opening with turn := some p }
  | opened (s : Session) (p : ℕ) (hturn : s.turn = some p) (hplace : s.place p = .opening) :
      Step maxBytes s (.opened p) (s.moved p .discarding)
  | discarded (s : Session) (p : ℕ) (hturn : s.turn = some p) (hplace : s.place p = .discarding) :
      Step maxBytes s (.discarded p) { s.moved p (.looking s.typed) with line := s.line.flush }
  | looked (s : Session) (p since : ℕ) (hturn : s.turn = some p)
      (hplace : s.place p = .looking since) :
      Step maxBytes s (.looked p) (s.moved p (.hiding since s.line.mode))
  | hid (s : Session) (p since : ℕ) (original : Termios) (hturn : s.turn = some p)
      (hplace : s.place p = .hiding since original) : Step maxBytes s (.hid p)
      { s.moved p (.writing since original) with line := s.line.setMode (hidden original) }
  | wrote (s : Session) (p since : ℕ) (original : Termios) (hturn : s.turn = some p)
      (hplace : s.place p = .writing since original) : Step maxBytes s (.wrote p)
      (s.moved p (.reading since original (.start maxBytes) []))
  | read (s : Session) (p since : ℕ) (original : Termios) (secret : CappedLine UInt8)
      (keys : List Key) (key : Key) (rest : List Key) (hturn : s.turn = some p)
      (hplace : s.place p = .reading since original secret keys)
      (hready : s.line.ready = key :: rest) : Step maxBytes s (.read p)
      { s.moved p (if key.byte = NEWLINE then .ending since original secret keys key
          else .reading since original (secret.push maxBytes key.byte) (keys ++ [key])) with
        line := { s.line with ready := rest } }
  | finished (s : Session) (p since : ℕ) (original : Termios) (secret : CappedLine UInt8)
      (keys : List Key) (enter : Key) (hturn : s.turn = some p)
      (hplace : s.place p = .ending since original secret keys enter) :
      Step maxBytes s (.finished p)
      (s.moved p (.restoring original (.entered since secret keys enter)))
  /-- No terminal there, or none that says what its mode is, or that takes another. -/
  | unavailable (s : Session) (p : ℕ) (e : PromptError) (hturn : s.turn = some p)
      (hplace : s.place p = .opening ∨ (∃ since, s.place p = .looking since) ∨
        ∃ since original, s.place p = .hiding since original) :
      Step maxBytes s (.unavailable p e) (s.closed p (.failed e))
  /-- The deadline passes at a wait, or the terminal fails. -/
  | gaveUp (s : Session) (p : ℕ) (original : Termios) (e : PromptError) (hturn : s.turn = some p)
      (hplace : (∃ since, s.place p = .writing since original) ∨
        (∃ since secret keys, s.place p = .reading since original secret keys) ∨
        ∃ since secret keys enter, s.place p = .ending since original secret keys enter) :
      Step maxBytes s (.gaveUp p e) (s.moved p (.dropping original e))
  | dropped (s : Session) (p : ℕ) (original : Termios) (e : PromptError) (hturn : s.turn = some p)
      (hplace : s.place p = .dropping original e) : Step maxBytes s (.dropped p)
      { s.moved p (.restoring original (.failed e)) with line := s.line.flush }
  | restored (s : Session) (p : ℕ) (original : Termios) (outcome : Outcome)
      (hturn : s.turn = some p) (hplace : s.place p = .restoring original outcome) :
      Step maxBytes s (.restored p)
      { s.closed p outcome with line := s.line.setMode original }

/-- The acts of whoever else is at the terminal. -/
def Act.ofOthers : Act → Prop
  | .taken => True
  | .flushed => True
  | .mode _ => True
  | _ => False

/-- A step in which the others leave the terminal alone if a prompt has its turn. -/
def Apart (maxBytes : ℕ) (s : Session) (a : Act) (t : Session) : Prop :=
  Step maxBytes s a t ∧ (a.ofOthers → s.turn = none)

/-! ### What was typed, and what the terminal makes of it -/

def typedBytes (acts : List Act) : Bytes :=
  acts.filterMap fun a =>
    match a with
    | .key byte => some byte
    | _ => none

/-- The mode that the others have left the terminal in, where it was in `mode` before. -/
def leftIn (mode : Termios) (acts : List Act) : Termios :=
  acts.foldl (fun left a =>
    match a with
    | .mode mode => mode
    | _ => left) mode

/-- The line as it would be had these keys not been read of it. -/
def Line.putBack (line : Line) (keys : List Key) : Line := { line with ready := keys ++ line.ready }

def Line.typeAll (line : Line) (bytes : Bytes) : Line :=
  bytes.foldl (fun line byte => line.type ⟨byte, 0, none⟩) line

/-- What a terminal in this mode makes of what is typed to an empty queue. -/
def uncovered (original : Termios) (early : Bytes) : Line :=
  Line.typeAll ⟨original, [], [], []⟩ early

/-- And of what is typed once a prompt hides it, where nobody reads. -/
def assembled (original : Termios) (early late : Bytes) : Line :=
  ((uncovered original early).setMode (hidden original)).typeAll late

/-! ### What the terminal does with a key -/

section

variable {line : Line} {key : Key}

theorem Line.queue_enqueue (line : Line) (key : Key) :
    (line.enqueue key).queue.Sublist (line.queue ++ [key]) := by
  unfold enqueue queue
  split_ifs
  · exact (List.Sublist.append_left (List.dropLast_sublist _) _).trans
      (List.sublist_append_left _ _)
  · rw [List.append_assoc]
  · simp

/-- What is waiting after a key is what was, less what the key takes back, and perhaps the
key. -/
theorem Line.queue_type (line : Line) (key : Key) :
    ∃ byte, (line.type key).queue.Sublist (line.queue ++ [{ key with byte }]) := by
  unfold type
  split
  · exact ⟨0, List.sublist_append_left _ _⟩
  · rename_i byte hbyte
    refine ⟨byte, ?_⟩
    have hecho : (line.echo { key with byte }).queue = line.queue := by
      unfold echo
      split_ifs <;> rfl
    rw [← hecho]
    exact queue_enqueue _ _

theorem Line.echoed_enqueue (line : Line) (key : Key) :
    (line.enqueue key).echoed = line.echoed := by
  unfold enqueue
  split_ifs <;> rfl

theorem Line.mode_enqueue (line : Line) (key : Key) : (line.enqueue key).mode = line.mode := by
  unfold enqueue
  split_ifs <;> rfl

theorem Line.mode_type (line : Line) (key : Key) : (line.type key).mode = line.mode := by
  unfold type
  split
  · rfl
  · rw [mode_enqueue]
    unfold echo
    split_ifs <;> rfl

theorem Line.mem_echoed_type {shown : Key} (h : shown ∈ (line.type key).echoed) :
    shown ∈ line.echoed ∨ line.mode.echo = true ∧ shown.prompt = key.prompt := by
  unfold type at h
  split at h
  · exact .inl h
  · rw [echoed_enqueue] at h
    unfold echo at h
    split_ifs at h with hecho
    · rcases List.mem_append.mp h with h | h
      · exact .inl h
      · obtain rfl := List.mem_singleton.mp h
        exact .inr ⟨hecho, rfl⟩
    · exact .inl h

@[simp] theorem Line.queue_flush (line : Line) : line.flush.queue = [] := rfl

@[simp] theorem Line.queue_setMode (line : Line) (mode : Termios) :
    (line.setMode mode).queue = line.queue := by
  unfold setMode queue
  split_ifs
  · rfl
  · simp

@[simp] theorem Line.mode_setMode (line : Line) (mode : Termios) :
    (line.setMode mode).mode = mode := by
  unfold setMode
  split_ifs <;> rfl

@[simp] theorem Line.echoed_setMode (line : Line) (mode : Termios) :
    (line.setMode mode).echoed = line.echoed := by
  unfold setMode
  split_ifs <;> rfl

theorem Line.queue_of_ready {rest : List Key} (h : line.ready = key :: rest) :
    line.queue = key :: { line with ready := rest }.queue := by
  rw [queue, h]
  rfl

/-! ### The bytes of a line -/

/-- The same bytes wait, in the same mode. -/
structure SameBytes (line line' : Line) : Prop where
  mode : line.mode = line'.mode
  ready : line.ready.map Key.byte = line'.ready.map Key.byte
  unfinished : line.unfinished.map Key.byte = line'.unfinished.map Key.byte

variable {line' : Line} {key' : Key}

theorem SameBytes.queue (h : SameBytes line line') :
    line.queue.map Key.byte = line'.queue.map Key.byte := by
  rw [Line.queue, Line.queue, List.map_append, List.map_append, h.ready, h.unfinished]

theorem SameBytes.enqueue (h : SameBytes line line') (hkey : key.byte = key'.byte) :
    SameBytes (line.enqueue key) (line'.enqueue key') := by
  rw [Line.enqueue, Line.enqueue, ← h.mode, ← hkey]
  split_ifs
  · exact ⟨rfl, h.ready, by rw [List.map_dropLast, List.map_dropLast, h.unfinished]⟩
  · exact ⟨rfl, h.ready, by simp [h.unfinished, hkey]⟩
  · exact ⟨rfl, by simp [h.queue, hkey], rfl⟩

theorem SameBytes.echo (h : SameBytes line line') (key key' : Key) :
    SameBytes (line.echo key) (line'.echo key') := by
  rw [Line.echo, Line.echo, ← h.mode]
  split_ifs
  · exact ⟨rfl, h.ready, h.unfinished⟩
  · exact h

/-- A terminal tells two keys apart by their bytes only. -/
theorem SameBytes.type (h : SameBytes line line') (hkey : key.byte = key'.byte) :
    SameBytes (line.type key) (line'.type key') := by
  rw [Line.type, Line.type, ← h.mode, ← hkey]
  cases takes line.mode key.byte with
  | none => exact h
  | some byte => exact (h.echo _ _).enqueue rfl

theorem SameBytes.setMode (h : SameBytes line line') (mode : Termios) :
    SameBytes (line.setMode mode) (line'.setMode mode) := by
  rw [Line.setMode, Line.setMode]
  split_ifs
  · exact ⟨rfl, h.ready, h.unfinished⟩
  · exact ⟨rfl, h.queue, rfl⟩

/-- What has been read has no part in what becomes of a key. -/
theorem Line.type_putBack (line : Line) (keys : List Key) (key : Key) :
    (line.putBack keys).type key = (line.type key).putBack keys := by
  unfold type
  rw [show (line.putBack keys).mode = line.mode from rfl]
  cases takes line.mode key.byte with
  | none => rfl
  | some byte =>
    dsimp only
    unfold enqueue echo putBack
    split_ifs <;> simp_all [queue]

theorem Line.putBack_of_ready {rest keys : List Key} (h : line.ready = key :: rest) :
    line.putBack keys = { line with ready := rest }.putBack (keys ++ [key]) := by
  simp [putBack, h]

theorem Line.mode_typeAll (line : Line) (bytes : Bytes) : (line.typeAll bytes).mode = line.mode := by
  induction bytes generalizing line with
  | nil => rfl
  | cons byte bytes ih => exact (ih _).trans (mode_type _ _)

theorem uncovered_mode {original : Termios} {early : Bytes} :
    (uncovered original early).mode = original := Line.mode_typeAll _ _

theorem typedBytes_append (acts acts' : List Act) :
    typedBytes (acts ++ acts') = typedBytes acts ++ typedBytes acts' := List.filterMap_append

theorem Line.typeAll_concat (line : Line) (bytes : Bytes) (byte : UInt8) :
    line.typeAll (bytes ++ [byte]) = (line.typeAll bytes).type ⟨byte, 0, none⟩ :=
  List.foldl_concat ..

end

end LastpassSshAgent.TerminalEntry
