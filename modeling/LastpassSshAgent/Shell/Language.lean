import Mathlib.Data.List.TakeWhile
import Mathlib.Logic.Function.Basic

/-!
# The part of the shell's language that needs no expansion

Words with single quotes and backslashes, assignments, `export` and other commands, one
after another. A text that uses anything else is not read. Each command is executed when it
ends, so a text is executed as its parts are.
-/

namespace Shell

/-- A character, and whether it was quoted. -/
abbrev Word : Type := List (Char × Bool)

def Word.text (w : Word) : List Char := w.map Prod.fst

structure State where
  vars : List Char → Option (List Char)
  exported : List Char → Bool
  /-- Names that cannot be assigned, or have values that the shell gives them. -/
  kept : List Char → Bool
  /-- What was executed besides assignments and `export`. -/
  ran : List (List (List Char))

namespace State

def assign (s : State) (name value : List Char) : State :=
  { s with vars := Function.update s.vars name (some value) }

def setExported (s : State) (name : List Char) : State :=
  { s with exported := Function.update s.exported name true }

end State

/-! ### Commands -/

def isName : List Char → Bool
  | [] => false
  | c :: cs => (c.isAlpha || c == '_') && cs.all fun c => c.isAlphanum || c == '_'

/-- The name and the value, where a word is an assignment: up to the `=` nothing is quoted. -/
def assignment (w : Word) : Option (List Char × List Char) :=
  let name : Word := w.takeWhile (· != ('=', false))
  match w.dropWhile (· != ('=', false)) with
  | [] => none
  | _ :: value =>
    if name.all (fun x => !x.2) && isName name.text then some (name.text, Word.text value) else none

def assignWord (s : State) (w : Word) : Option State :=
  match assignment w with
  | some (name, value) => if s.kept name then none else some (s.assign name value)
  | none => some s

def exportWord (s : State) (w : Word) : Option State :=
  match assignment w with
  | some (name, value) =>
    if s.kept name then none else some ((s.assign name value).setExported name)
  | none => if isName w.text then some (s.setExported w.text) else none

def EXPORT : List Char := "export".toList

/-- What the grammar gives a meaning of their own. -/
def reserved : List (List Char) :=
  ["!", "case", "do", "done", "elif", "else", "esac", "fi", "for", "if", "in", "then", "until",
    "while"].map String.toList

/-- Assignments alone are made; before a command they are made for it only. Of those before
an `export` shells think differently. -/
def execute (s : State) (words : List Word) : Option State :=
  let assignments := words.takeWhile fun w => (assignment w).isSome
  match words.dropWhile fun w => (assignment w).isSome with
  | [] => assignments.foldlM assignWord s
  | name :: args =>
    if name.text = EXPORT then
      if assignments = [] then args.foldlM exportWord s else none
    else if name.all (fun x => !x.2) && reserved.contains name.text then none
    else some { s with ran := s.ran ++ [words.map Word.text] }

/-! ### Reading -/

inductive Mode where
  | plain
  | single
  | escaped
  deriving DecidableEq, Repr

structure Reader where
  mode : Mode
  word : Option Word
  words : List Word
  state : State

namespace Reader

def start (s : State) : Reader := ⟨.plain, none, [], s⟩

def append (r : Reader) (c : Char) (quoted : Bool) : Reader :=
  { r with mode := if quoted then r.mode else .plain, word := some (r.word.getD [] ++ [(c, quoted)]) }

def endWord (r : Reader) : Reader :=
  { r with word := none, words := r.words ++ r.word.toList }

def endCommand (r : Reader) : Option Reader :=
  (execute r.state r.endWord.words).map start

end Reader

/-- What would be expanded, or is an operator that is not read. -/
def special : List Char := "|&<>()$`\"*?[#~%\x7b\x7d".toList

/-- No text that a shell reads has it. -/
def NUL : Char := '\x00'

def plainStep (r : Reader) (c : Char) : Option Reader :=
  if c = '\'' then some { r with mode := .single, word := some (r.word.getD []) }
  else if c = '\\' then some { r with mode := .escaped }
  else if c = ' ' ∨ c = '\t' then some r.endWord
  else if c = '\n' then r.endCommand
  else if c = ';' then if r.endWord.words = [] then none else r.endCommand
  else if c ∈ special then none
  else some (r.append c false)

def modeStep (r : Reader) (c : Char) : Option Reader :=
  match r.mode with
  | .plain => plainStep r c
  | .single => some (if c = '\'' then { r with mode := .plain } else r.append c true)
  | .escaped =>
    if c = '\n' then some { r with mode := .plain }
    else some { r.append c true with mode := .plain }

def step (r : Reader) (c : Char) : Option Reader := if c = NUL then none else modeStep r c

def read (r : Reader) (text : List Char) : Option Reader := text.foldlM step r

def run (text : List Char) (s : State) : Option State := do
  let r ← read (.start s) text
  if r.mode = .plain then
    let r ← r.endCommand
    some r.state
  else none

variable {r r' : Reader} {s s' : State} {text text' : List Char} {c : Char}

@[simp] theorem read_nil : read r [] = some r := rfl

theorem read_cons : read r (c :: text) = (step r c).bind fun r => read r text := rfl

theorem read_append : read r (text ++ text') = (read r text).bind fun r => read r text' :=
  List.foldlM_append

/-- A text that ends its commands is executed before what follows it. -/
theorem run_append (h : read (.start s) text = some (.start s')) :
    run (text ++ text') s = run text' s' := by
  rw [run, read_append, h]
  rfl

theorem run_of_read (h : read (.start s) text = some (.start s')) : run text s = some s' := by
  rw [run, h]
  rfl

/-- A shell that makes assignments and exports as defined here, line after line whatever else
it executes. -/
structure Follows (shell : List Char → State → Option State) : Prop where
  runs : ∀ text s s', run text s = some s' → s'.ran = s.ran → shell text s = some s'
  lines : ∀ text rest s s', read (.start s) (text ++ ['\n']) = some (.start s') →
    s'.ran = s.ran → shell (text ++ '\n' :: rest) s = shell rest s'

theorem follows_run : Follows run where
  runs _ _ _ h _ := h
  lines text rest s s' h _ := by
    rw [List.append_cons]
    exact run_append h

/-! ### Quoting -/

/-- A text between single quotes; those within are quoted on their own. -/
def quote (text : List Char) : List Char :=
  '\'' :: (text.flatMap fun c => if c = '\'' then ['\'', '\\', '\'', '\''] else [c]) ++ ['\'']

/-- Neither quotes nor ends a word, and is not expanded. -/
def isOrdinary (c : Char) : Bool :=
  !(c = NUL || c = '\'' || c = '\\' || c = ' ' || c = '\t' || c = '\n' || c = ';' || c ∈ special)

theorem step_ordinary (hmode : r.mode = .plain) (hc : isOrdinary c = true) :
    step r c = some (r.append c false) := by
  simp only [isOrdinary, Bool.not_eq_true', Bool.or_eq_false_iff, decide_eq_false_iff_not] at hc
  obtain ⟨⟨⟨⟨⟨⟨⟨hnul, hquote⟩, hescape⟩, hspace⟩, htab⟩, hnewline⟩, hsemi⟩, hspecial⟩ := hc
  rw [step, if_neg hnul, modeStep, hmode]
  dsimp only
  rw [plainStep, if_neg hquote, if_neg hescape, if_neg (not_or.mpr ⟨hspace, htab⟩),
    if_neg hnewline, if_neg hsemi, if_neg hspecial]

theorem read_ordinary {w : Word} (hmode : r.mode = .plain) (hword : r.word = some w)
    (htext : ∀ c ∈ text, isOrdinary c = true) :
    read r text = some { r with word := some (w ++ text.map fun c => (c, false)) } := by
  induction text generalizing r w with
  | nil => simp [hword.symm]
  | cons c text ih =>
    obtain ⟨hc, htext⟩ := List.forall_mem_cons.mp htext
    rw [read_cons, step_ordinary hmode hc, Option.bind_some,
      ih (w := w ++ [(c, false)]) rfl (by simp [Reader.append, hword]) htext]
    simp [Reader.append, hmode]

theorem read_word (hmode : r.mode = .plain) (hword : r.word = none) (hne : text ≠ [])
    (htext : ∀ c ∈ text, isOrdinary c = true) :
    read r text = some { r with word := some (text.map fun c => (c, false)) } := by
  obtain ⟨c, text, rfl⟩ := List.exists_cons_of_ne_nil hne
  obtain ⟨hc, htext⟩ := List.forall_mem_cons.mp htext
  rw [read_cons, step_ordinary hmode hc, Option.bind_some,
    read_ordinary (w := [(c, false)]) rfl (by simp [Reader.append, hword]) htext]
  simp [Reader.append, hmode]

theorem read_quoted {w : Word} (hmode : r.mode = .single) (hword : r.word = some w)
    (htext : NUL ∉ text) :
    read r ((text.flatMap fun c => if c = '\'' then ['\'', '\\', '\'', '\''] else [c]) ++ ['\'']) =
      some { r with mode := .plain, word := some (w ++ text.map fun c => (c, true)) } := by
  induction text generalizing r w with
  | nil => simp [read_cons, step, modeStep, NUL, hmode, hword.symm]
  | cons c text ih =>
    rw [List.mem_cons, not_or] at htext
    obtain ⟨hc, htext⟩ := htext
    rw [List.flatMap_cons, List.append_assoc]
    by_cases hquote : c = '\''
    · subst hquote
      have hfour : read r ['\'', '\\', '\'', '\''] =
          some { r with mode := .single, word := some (w ++ [('\'', true)]) } := by
        simp [read_cons, step, modeStep, NUL, hmode, plainStep, Reader.append, hword]
      rw [if_pos rfl, read_append, hfour, Option.bind_some,
        ih (w := w ++ [('\'', true)]) rfl rfl htext]
      simp
    · rw [if_neg hquote, List.singleton_append, read_cons, step, if_neg (Ne.symm hc), modeStep,
        hmode]
      dsimp only
      rw [if_neg hquote, Option.bind_some, ih (w := w ++ [(c, true)])
        (by simp [Reader.append, hmode]) (by simp [Reader.append, hword]) htext]
      simp [Reader.append]

/-- A quoted text becomes part of a word, whatever is in it. -/
theorem read_quote (hmode : r.mode = .plain) (htext : NUL ∉ text) : read r (quote text) =
    some { r with word := some (r.word.getD [] ++ text.map fun c => (c, true)) } := by
  have hopen : step r '\'' = some { r with mode := .single, word := some (r.word.getD []) } := by
    rw [step, if_neg (by decide), modeStep, hmode]
    rfl
  rw [quote, List.cons_append, read_cons, hopen, Option.bind_some, read_quoted rfl rfl htext, hmode]

/-! ### Assignments and `export` -/

def isNameChar (c : Char) : Bool := c.isAlphanum || c == '_'

theorem isNameChar_of_isName {name : List Char} (h : isName name = true) :
    ∀ c ∈ name, isNameChar c = true := by
  cases name with
  | nil => cases h
  | cons c name =>
    rw [isName, Bool.and_eq_true, List.all_eq_true] at h
    refine List.forall_mem_cons.mpr ⟨?_, h.2⟩
    rw [isNameChar, Char.isAlphanum, Bool.or_right_comm, h.1, Bool.true_or]

theorem isOrdinary_of_isNameChar (h : isNameChar c = true) : isOrdinary c = true := by
  have hother : ([NUL, '\'', '\\', ' ', '\t', '\n', ';'] ++ special).all (!isNameChar ·) = true := by
    decide
  by_contra hc
  have hmem : c ∈ [NUL, '\'', '\\', ' ', '\t', '\n', ';'] ++ special := by
    simpa [isOrdinary, or_assoc, imp_iff_not_or] using hc
  have hspecial : (!isNameChar c) = true := List.all_eq_true.mp hother c hmem
  rw [h] at hspecial
  cases hspecial

/-- A name, an equals sign, and whatever is quoted after it. -/
def assigning (name value : List Char) : Word :=
  (name.map fun c => (c, false)) ++ ('=', false) :: value.map fun c => (c, true)

theorem ne_equals_of_isNameChar (h : isNameChar c = true) : c ≠ '=' := by
  rintro rfl
  exact absurd h (by decide)

theorem assignment_assigning {name : List Char} (h : isName name = true) (value : List Char) :
    assignment (assigning name value) = some (name, value) := by
  have hname : ∀ x ∈ name.map fun c => (c, false), (x != ('=', false)) = true := by
    intro x hx
    obtain ⟨c, hc, rfl⟩ := List.mem_map.mp hx
    simp [ne_equals_of_isNameChar (isNameChar_of_isName h c hc)]
  have htake : (assigning name value).takeWhile (· != ('=', false)) = name.map fun c => (c, false) := by
    rw [assigning, List.takeWhile_append_of_pos hname]
    simp
  have hdrop : (assigning name value).dropWhile (· != ('=', false)) =
      ('=', false) :: value.map fun c => (c, true) := by
    rw [assigning, List.dropWhile_append_of_pos hname]
    simp
  rw [assignment, htake, hdrop]
  simp [Word.text, Function.comp_def, h]

theorem assignment_name {name : List Char} (h : isName name = true) :
    assignment (name.map fun c => (c, false)) = none := by
  have hdrop : (name.map fun c => (c, false)).dropWhile (· != ('=', false)) = [] := by
    rw [List.dropWhile_eq_nil_iff]
    intro x hx
    obtain ⟨c, hc, rfl⟩ := List.mem_map.mp hx
    simp [ne_equals_of_isNameChar (isNameChar_of_isName h c hc)]
  rw [assignment, hdrop]

theorem ne_nil_of_isName {name : List Char} (h : isName name = true) : name ≠ [] := by
  rintro rfl
  cases h

theorem step_semicolon (hmode : r.mode = .plain) (hwords : r.endWord.words ≠ []) :
    step r ';' = r.endCommand := by
  rw [step, if_neg (by decide), modeStep, hmode]
  exact if_neg hwords

theorem read_assignment {name value : List Char} (h : isName name = true)
    (hkept : s.kept name = false) (hvalue : NUL ∉ value) :
    read (.start s) (name ++ '=' :: (quote value ++ [';'])) =
      some (.start (s.assign name value)) := by
  have hordinary : ∀ c ∈ name ++ ['='], isOrdinary c = true := by
    refine List.forall_mem_append.mpr
      ⟨fun c hc => isOrdinary_of_isNameChar (isNameChar_of_isName h c hc), List.forall_mem_singleton.mpr rfl⟩
  have hname : read (.start s) (name ++ ['=']) =
      some { Reader.start s with word := some ((name ++ ['=']).map fun c => (c, false)) } :=
    read_word rfl rfl (by simp) hordinary
  have hexecute : execute s [assigning name value] = some (s.assign name value) := by
    simp [execute, assignment_assigning h, assignWord, hkept]
  rw [show name ++ '=' :: (quote value ++ [';']) = (name ++ ['=']) ++ (quote value ++ [';']) by simp,
    read_append, hname, Option.bind_some, read_append, read_quote rfl hvalue, Option.bind_some, read_cons,
    step_semicolon rfl (by simp [Reader.endWord])]
  simp only [Reader.endCommand, Reader.endWord, Reader.start, Option.getD_some, List.nil_append,
    Option.toList_some]
  rw [show (name ++ ['=']).map (fun c => (c, false)) ++ value.map (fun c => (c, true)) =
    assigning name value by simp [assigning], hexecute]
  rfl

theorem read_export {name : List Char} (h : isName name = true) :
    read (.start s) (' ' :: (EXPORT ++ ' ' :: (name ++ [';']))) =
      some (.start (s.setExported name)) := by
  have hordinary : ∀ c ∈ name, isOrdinary c = true :=
    fun c hc => isOrdinary_of_isNameChar (isNameChar_of_isName h c hc)
  have hexported : ∀ c ∈ EXPORT, isOrdinary c = true :=
    List.all_eq_true.mp (show EXPORT.all isOrdinary = true by decide)
  have hblank : ∀ r : Reader, r.mode = .plain → step r ' ' = some r.endWord := by
    intro r hmode
    rw [step, if_neg (by decide), modeStep, hmode]
    rfl
  have hexecute : execute s [EXPORT.map fun c => (c, false), name.map fun c => (c, false)] =
      some (s.setExported name) := by
    have hexport : assignment (EXPORT.map fun c => (c, false)) = none := assignment_name (by decide)
    simp [execute, hexport, assignment_name h, exportWord, Word.text, Function.comp_def, h]
  rw [read_cons, hblank _ rfl, Option.bind_some, read_append,
    read_word rfl rfl (by decide) hexported, Option.bind_some, read_cons, hblank _ rfl,
    Option.bind_some, read_append, read_word rfl rfl (ne_nil_of_isName h) hordinary,
    Option.bind_some, read_cons, step_semicolon rfl (by simp [Reader.endWord])]
  simp only [Reader.endCommand, Reader.endWord, Reader.start, List.nil_append, Option.toList_none,
    Option.toList_some, List.singleton_append]
  rw [hexecute]
  rfl

end Shell
