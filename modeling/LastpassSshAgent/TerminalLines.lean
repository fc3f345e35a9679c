import LastpassSshAgent.Buffers.Capped
import LastpassSshAgent.Confirm
import LastpassSshAgent.World

/-!
# One line typed at a terminal

A confirmation and a passphrase are read a byte at a time, down to the newline and no
further. A line past the cap is read to its end as well, and is then no answer at all.
-/

namespace LastpassSshAgent

open Buffers

/-! ### The terminal -/

/-- What entering a passphrase changes of a terminal's mode. -/
structure Termios where
  echo : Bool
  icanon : Bool
  icrnl : Bool
  igncr : Bool
  deriving DecidableEq, Repr

/-- Its mode, or why it has none, the input that waits to be read, and what was written. -/
structure Terminal where
  mode : Except String Termios
  queued : Bytes
  written : Bytes

/-- What is delivered once the prompt stands, and why a read past it fails, if it does. -/
structure TtyInput where
  bytes : Bytes
  hungUp : Option String

inductive Exchange (α : Type) where
  | answered (terminal : Terminal) (answer : α)
  | failed (why : String)
  | expired (terminal : Terminal)

def NEWLINE : UInt8 := 10

namespace Terminal

/-- Only a terminal has a queue to flush. -/
def discardPendingInput (terminal : Terminal) : Terminal :=
  match terminal.mode with
  | .ok _ => { terminal with queued := [] }
  | .error _ => terminal

def writeAll (terminal : Terminal) (buf : Bytes) : Terminal :=
  { terminal with written := terminal.written ++ buf }

/-- Echo goes, and a line is handed over whole on Enter; with the mode to go back to. -/
def hideInput (terminal : Terminal) : Except String (Termios × Terminal) := do
  let original ← terminal.mode
  let hidden := { original with echo := false, icanon := true, icrnl := true, igncr := false }
  .ok (original, { terminal with mode := .ok hidden })

def restore (terminal : Terminal) (original : Termios) (discardInput : Bool) : Terminal :=
  { terminal with
    mode := .ok original
    queued := if discardInput then [] else terminal.queued }

/-- One line, a byte at a time. -/
def enter (terminal : Terminal) (limit : ℕ) (typed : TtyInput) : Exchange (CappedLine UInt8) :=
  match readLine NEWLINE limit (.start limit) (terminal.queued ++ typed.bytes), typed.hungUp with
  | some (line, rest), _ => .answered { terminal with queued := rest } line
  | none, some why => .failed why
  | none, none => .expired { terminal with queued := [] }

end Terminal

/-! ### The two prompts -/

def MAX_ANSWER_BYTES : ℕ := 64

def isAsciiWhitespace (b : UInt8) : Bool := b ∈ [0x20, 0x09, 0x0a, 0x0c, 0x0d]

def trimAscii (bytes : Bytes) : Bytes :=
  ((bytes.dropWhile isAsciiWhitespace).reverse.dropWhile isAsciiWhitespace).reverse

def allowPrompt (message : String) : Bytes :=
  utf8 s!"\n{message}\nAllow? (type 'yes' to approve, anything else denies): "

def passphrasePrompt (message : String) : Bytes :=
  utf8 s!"\n{message}\nPassphrase (not echoed): "

def promptOnTty (opened : Except String Terminal) (message : String) (typed : TtyInput) :
    Exchange Bool :=
  match opened with
  | .error why => .failed why
  | .ok terminal =>
    let terminal := terminal.discardPendingInput.writeAll (allowPrompt message)
    match terminal.enter MAX_ANSWER_BYTES typed with
    | .failed why => .failed why
    | .expired terminal => .expired terminal
    | .answered terminal answer =>
      .answered terminal (!answer.tooLong && trimAscii answer.buffer.items == utf8 "yes")

/-- `none` is a line that ran past `maxBytes`. -/
def readPassphrase (opened : Except String Terminal) (message : String) (maxBytes : ℕ)
    (typed : TtyInput) : Exchange (Option Bytes) :=
  match opened.bind fun terminal => terminal.discardPendingInput.hideInput with
  | .error why => .failed why
  | .ok (original, terminal) =>
    let terminal := terminal.writeAll (passphrasePrompt message)
    match terminal.enter maxBytes typed with
    | .failed why => .failed why
    | .expired terminal => .expired (terminal.restore original true)
    | .answered terminal secret =>
      .answered ((terminal.writeAll (utf8 "\n")).restore original false)
        (if secret.tooLong then none else some secret.buffer.items)

def Exchange.decision : Exchange Bool → Decision
  | .answered _ true => .approve
  | _ => .deny

def Exchange.passphrase (ttyPath : String) (maxBytes : ℕ) :
    Exchange (Option Bytes) → Except PromptError Bytes
  | .answered _ (some secret) => .ok secret
  | .answered _ none => .error (.tooLong maxBytes)
  | .failed why => .error (.unavailable s!"{ttyPath}: {why}")
  | .expired _ => .error .cancelled

/-! ### What is read -/

section

variable {mode : Termios} {queued written line rest : Bytes} {message : String} {limit : ℕ}
  {hungUp : Option String}

theorem enter_line (h : NEWLINE ∉ line) (terminal : Terminal) (hqueued : terminal.queued = []) :
    terminal.enter limit ⟨line ++ NEWLINE :: rest, hungUp⟩ =
      .answered { terminal with queued := rest } (.after limit line) := by
  rw [Terminal.enter, hqueued, List.nil_append, readLine_ended h]

theorem approves_iff (line : Bytes) :
    (!(CappedLine.after MAX_ANSWER_BYTES line).tooLong &&
      trimAscii (CappedLine.after MAX_ANSWER_BYTES line).buffer.items == utf8 "yes") =
        decide (line.length ≤ MAX_ANSWER_BYTES ∧ trimAscii line = utf8 "yes") := by
  obtain ⟨hitems, hlong, -⟩ := CappedLine.after_spec MAX_ANSWER_BYTES line
  rw [hitems, hlong]
  by_cases hfits : line.length ≤ MAX_ANSWER_BYTES
  · rw [List.take_of_length_le hfits, decide_eq_false (Nat.not_lt.mpr hfits), Bool.eq_iff_iff]
    simp [hfits]
  · rw [decide_eq_true (Nat.lt_of_not_le hfits)]
    simp [hfits]

theorem kept_iff (limit : ℕ) (line : Bytes) :
    (if (CappedLine.after limit line).tooLong then none
      else some (CappedLine.after limit line).buffer.items) =
        if line.length ≤ limit then some line else none := by
  obtain ⟨hitems, hlong, -⟩ := CappedLine.after_spec limit line
  rw [hitems, hlong]
  by_cases hfits : line.length ≤ limit
  · rw [List.take_of_length_le hfits, decide_eq_false (Nat.not_lt.mpr hfits), if_pos hfits]
    rfl
  · rw [decide_eq_true (Nat.lt_of_not_le hfits), if_neg hfits, if_pos rfl]

theorem promptOnTty_line (h : NEWLINE ∉ line) :
    promptOnTty (.ok ⟨.ok mode, queued, written⟩) message ⟨line ++ NEWLINE :: rest, hungUp⟩ =
      .answered ⟨.ok mode, rest, written ++ allowPrompt message⟩
        (decide (line.length ≤ MAX_ANSWER_BYTES ∧ trimAscii line = utf8 "yes")) := by
  rw [promptOnTty, enter_line h _ rfl, ← approves_iff]
  rfl

theorem readPassphrase_line (h : NEWLINE ∉ line) (maxBytes : ℕ) :
    readPassphrase (.ok ⟨.ok mode, queued, written⟩) message maxBytes
        ⟨line ++ NEWLINE :: rest, hungUp⟩ =
      .answered ⟨.ok mode, rest, written ++ passphrasePrompt message ++ utf8 "\n"⟩
        (if line.length ≤ maxBytes then some line else none) := by
  have hopened : (Except.ok ⟨.ok mode, queued, written⟩ : Except String Terminal).bind
      (fun terminal => terminal.discardPendingInput.hideInput) =
        .ok (mode, ⟨.ok { mode with echo := false, icanon := true, icrnl := true, igncr := false },
          [], written⟩) := rfl
  rw [readPassphrase, hopened, ← kept_iff]
  dsimp only
  rw [enter_line h _ rfl]
  rfl

end

/-- A line is read whole or refused, and its newline is the last byte that is read. -/
theorem terminal_lines (mode : Termios) (queued written : Bytes) (message : String)
    (maxBytes : ℕ) (hungUp : Option String) (stream : Bytes) (h : NEWLINE ∈ stream) :
    ∃ line rest, stream = line ++ NEWLINE :: rest ∧ NEWLINE ∉ line ∧
      promptOnTty (.ok ⟨.ok mode, queued, written⟩) message ⟨stream, hungUp⟩ =
        .answered ⟨.ok mode, rest, written ++ allowPrompt message⟩
          (decide (line.length ≤ 64 ∧ trimAscii line = utf8 "yes")) ∧
      readPassphrase (.ok ⟨.ok mode, queued, written⟩) message maxBytes ⟨stream, hungUp⟩ =
        .answered ⟨.ok mode, rest, written ++ passphrasePrompt message ++ utf8 "\n"⟩
          (if line.length ≤ maxBytes then some line else none) ∧
      (64 < line.length →
        (promptOnTty (.ok ⟨.ok mode, queued, written⟩) message ⟨stream, hungUp⟩).decision =
          .deny) ∧
      ∀ limit typed more, line = typed ++ more →
        readLine NEWLINE limit (.start limit) stream =
            readLine NEWLINE limit (.after limit typed) (more ++ NEWLINE :: rest) ∧
          (CappedLine.after limit typed).buffer.items.length ≤ limit ∧
          (CappedLine.after limit typed).buffer.InPlace limit := by
  obtain ⟨line, rest, rfl, hline⟩ := List.eq_append_cons_of_mem h
  refine ⟨line, rest, rfl, hline, promptOnTty_line hline, readPassphrase_line hline maxBytes, ?_,
    ?_⟩
  · intro hlong
    have hdenied : ¬ (line.length ≤ MAX_ANSWER_BYTES ∧ trimAscii line = utf8 "yes") :=
      fun hyes => Nat.not_lt.mpr hyes.1 hlong
    rw [promptOnTty_line hline, decide_eq_false hdenied]
    rfl
  · rintro limit typed more rfl
    have htyped : NEWLINE ∉ typed := fun hmem => hline (List.mem_append_left more hmem)
    have hplace := (CappedLine.after_spec limit typed).2.2
    refine ⟨?_, hplace.length_le, hplace⟩
    rw [List.append_assoc, readLine_append htyped]
    rfl

/-- An answer with what was typed behind it. -/
theorem terminal_lines_yes : ∃ line rest, utf8 "yes\nrm" = line ++ NEWLINE :: rest ∧
    NEWLINE ∉ line ∧
    promptOnTty (.ok ⟨.ok ⟨true, true, true, false⟩, [], []⟩) "?" ⟨utf8 "yes\nrm", none⟩ =
      .answered ⟨.ok ⟨true, true, true, false⟩, rest, [] ++ allowPrompt "?"⟩
        (decide (line.length ≤ 64 ∧ trimAscii line = utf8 "yes")) := by
  obtain ⟨line, rest, hstream, hline, hanswer, -⟩ := terminal_lines ⟨true, true, true, false⟩ [] []
    "?" 1024 none (utf8 "yes\nrm") (by decide)
  exact ⟨line, rest, hstream, hline, hanswer⟩

end LastpassSshAgent
