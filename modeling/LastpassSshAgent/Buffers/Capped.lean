import Mathlib.Data.List.Basic
import Mathlib.Data.List.Induction
import Mathlib.Order.Basic

/-!
# Reading into a buffer that is allocated once

A growable buffer that is given more than it has room for moves to a new allocation and
leaves what it held behind in the old one. A reader that compares with its cap before it
appends is never moved, and what it makes of a stream depends on the stream alone.
-/

namespace Buffers

variable {σ ε : Type}

/-- What is held, the room there is for it, and what the allocations given back still hold. -/
structure Buffer (σ : Type) where
  items : List σ
  capacity : ℕ
  freed : List (List σ)
  fits : items.length ≤ capacity

namespace Buffer

def withCapacity (capacity : ℕ) : Buffer σ := ⟨[], capacity, [], Nat.zero_le capacity⟩

def extend (b : Buffer σ) (more : List σ) : Buffer σ :=
  if h : b.items.length + more.length ≤ b.capacity then
    ⟨b.items ++ more, b.capacity, b.freed, List.length_append.trans_le h⟩
  else
    ⟨b.items ++ more, max (2 * b.capacity) (b.items.length + more.length), b.freed ++ [b.items],
      List.length_append.trans_le (Nat.le_max_right _ _)⟩

def InPlace (capacity : ℕ) (b : Buffer σ) : Prop := b.capacity = capacity ∧ b.freed = []

variable {b : Buffer σ} {capacity : ℕ} {more : List σ}

@[simp] theorem items_extend : (b.extend more).items = b.items ++ more := by
  rw [extend]
  split_ifs <;> rfl

theorem inPlace_withCapacity : (withCapacity capacity : Buffer σ).InPlace capacity := ⟨rfl, rfl⟩

theorem InPlace.length_le (h : b.InPlace capacity) : b.items.length ≤ capacity := h.1 ▸ b.fits

theorem InPlace.extend (h : b.InPlace capacity) (hroom : b.items.length + more.length ≤ capacity) :
    (b.extend more).InPlace capacity := by
  rw [Buffer.extend, dif_pos (h.1 ▸ hroom)]
  exact h

end Buffer

/-! ### A stream in chunks -/

/-- How a stream comes in: no read is empty before the end, or longer than it may be. -/
structure Chunking (size : ℕ) (stream : List σ) where
  chunks : List (List σ)
  bounded : ∀ chunk ∈ chunks, 0 < chunk.length ∧ chunk.length ≤ size
  joined : chunks.flatten = stream

def Chunking.reads {size : ℕ} {stream : List σ} (split : Chunking size stream) :
    List (Except ε (List σ)) := split.chunks.map .ok ++ [.ok []]

theorem Chunking.map_reads {ε' : Type} {size : ℕ} {stream : List σ} (split : Chunking size stream)
    (f : ε → ε') : split.reads.map (Except.mapError f) = split.reads := by
  rw [reads, reads, List.map_append, List.map_map]
  rfl

inductive Reading (ε σ : Type) where
  | going (out : Buffer σ)
  | returned (result : Except ε (Buffer σ))

namespace Reading

def next (cap : ℕ) (tooLong : ε) : Reading ε σ → Except ε (List σ) → Reading ε σ
  | .going _, .error e => .returned (.error e)
  | .going out, .ok read =>
    if read.length = 0 then .returned (.ok out)
    else if cap < out.items.length + read.length then .returned (.error tooLong)
    else .going (out.extend read)
  | .returned result, _ => .returned result

def buffer : Reading ε σ → Option (Buffer σ)
  | .going out => some out
  | .returned result => result.toOption

def result : Reading ε σ → Option (Except ε (List σ))
  | .going _ => none
  | .returned result => some (result.map Buffer.items)

end Reading

def readCapped (capacity cap : ℕ) (tooLong : ε) (reads : List (Except ε (List σ))) : Reading ε σ :=
  reads.foldl (Reading.next cap tooLong) (.going (.withCapacity capacity))

section

variable {capacity cap : ℕ} {tooLong : ε} {reads : List (Except ε (List σ))} {out : Buffer σ}

theorem inPlace_next {reading : Reading ε σ} {read : Except ε (List σ)} (hcap : cap ≤ capacity)
    (h : ∀ out, reading.buffer = some out → out.InPlace capacity)
    (hout : (reading.next cap tooLong read).buffer = some out) : out.InPlace capacity := by
  cases reading with
  | returned result => exact h out hout
  | going held =>
    have hheld : held.InPlace capacity := h held rfl
    cases read with
    | error e => cases hout
    | ok read =>
      rw [Reading.next] at hout
      split_ifs at hout with hend hlong
      · obtain rfl := Option.some.inj hout
        exact hheld
      · cases hout
      · obtain rfl := Option.some.inj hout
        exact hheld.extend (Nat.le_trans (Nat.le_of_not_lt hlong) hcap)

theorem inPlace_of_readCapped (hcap : cap ≤ capacity)
    (h : (readCapped capacity cap tooLong reads).buffer = some out) : out.InPlace capacity := by
  induction reads using List.reverseRecOn generalizing out with
  | nil =>
    obtain rfl := Option.some.inj h
    exact Buffer.inPlace_withCapacity
  | append_singleton reads read ih =>
    rw [readCapped, List.foldl_concat] at h
    exact inPlace_next hcap (fun _ => ih) h

theorem foldl_next_returned (result : Except ε (Buffer σ)) :
    reads.foldl (Reading.next cap tooLong) (.returned result) = .returned result := by
  induction reads with
  | nil => rfl
  | cons read reads ih => exact ih

theorem result_of_chunks (tooLong : ε) (out : Buffer σ) (chunks : List (List σ))
    (hpos : ∀ chunk ∈ chunks, 0 < chunk.length) (hheld : out.items.length ≤ cap) :
    ((chunks.map Except.ok ++ [Except.ok []]).foldl (Reading.next cap tooLong) (.going out)).result =
      some (if (out.items ++ chunks.flatten).length ≤ cap then .ok (out.items ++ chunks.flatten)
        else .error tooLong) := by
  induction chunks generalizing out with
  | nil =>
    rw [List.flatten_nil, List.append_nil, if_pos hheld]
    rfl
  | cons chunk chunks ih =>
    have hchunk : ¬ chunk.length = 0 := Nat.ne_of_gt (hpos chunk List.mem_cons_self)
    rw [List.map_cons, List.cons_append, List.foldl_cons, Reading.next, if_neg hchunk,
      List.flatten_cons, ← List.append_assoc]
    by_cases hlong : cap < out.items.length + chunk.length
    · have htotal : ¬ (out.items ++ chunk ++ chunks.flatten).length ≤ cap := by
        rw [List.length_append, List.length_append]
        omega
      rw [if_pos hlong, foldl_next_returned, if_neg htotal]
      rfl
    · have hfits : (out.extend chunk).items.length ≤ cap := by
        rw [Buffer.items_extend, List.length_append]
        exact Nat.le_of_not_lt hlong
      rw [if_neg hlong, ih _ (fun c hc => hpos c (List.mem_cons_of_mem chunk hc)) hfits,
        Buffer.items_extend]

/-- However a stream is split, it is returned whole when it is within the cap and refused
when it is not. -/
theorem result_readCapped {size : ℕ} {stream : List σ} (split : Chunking size stream) :
    (readCapped capacity cap tooLong split.reads).result =
      some (if stream.length ≤ cap then .ok stream else .error tooLong) := by
  have hpos : ∀ chunk ∈ split.chunks, 0 < chunk.length := fun chunk hc => (split.bounded chunk hc).1
  have hresult := result_of_chunks tooLong (.withCapacity capacity) split.chunks hpos
    (Nat.zero_le cap)
  rw [split.joined] at hresult
  exact hresult

end

/-! ### A line, an item at a time -/

structure CappedLine (σ : Type) where
  buffer : Buffer σ
  tooLong : Bool

namespace CappedLine

def start (limit : ℕ) : CappedLine σ := ⟨.withCapacity limit, false⟩

def push (limit : ℕ) (line : CappedLine σ) (item : σ) : CappedLine σ :=
  if line.buffer.items.length = limit then { line with tooLong := true }
  else { line with buffer := line.buffer.extend [item] }

/-- The line once these have been read, none of which ended it. -/
def after (limit : ℕ) (typed : List σ) : CappedLine σ := typed.foldl (push limit) (start limit)

end CappedLine

/-- A line and what is left behind its end, or nothing while it has not ended. -/
def readLine [DecidableEq σ] (eol : σ) (limit : ℕ) :
    CappedLine σ → List σ → Option (CappedLine σ × List σ)
  | _, [] => none
  | line, item :: input =>
    if item = eol then some (line, input) else readLine eol limit (line.push limit item) input

section

variable [DecidableEq σ] {eol : σ} {limit : ℕ} {line : CappedLine σ} {typed rest : List σ}

theorem readLine_append (h : eol ∉ typed) :
    readLine eol limit line (typed ++ rest) =
      readLine eol limit (typed.foldl (CappedLine.push limit) line) rest := by
  induction typed generalizing line with
  | nil => rfl
  | cons item typed ih =>
    have hitem : item ≠ eol := fun heq => h (heq ▸ List.mem_cons_self)
    rw [List.cons_append, readLine, if_neg hitem, ih fun hmem => h (List.mem_cons_of_mem item hmem)]
    rfl

theorem readLine_ended (h : eol ∉ typed) :
    readLine eol limit (.start limit) (typed ++ eol :: rest) = some (.after limit typed, rest) := by
  rw [readLine_append h, readLine, if_pos rfl]
  rfl

end

theorem CappedLine.after_concat (limit : ℕ) (typed : List σ) (item : σ) :
    after limit (typed ++ [item]) = (after limit typed).push limit item :=
  List.foldl_concat _ _ item typed

/-- As much is kept as there is room for, and the buffer stays where it was allocated. -/
theorem CappedLine.after_spec (limit : ℕ) (typed : List σ) :
    (after limit typed).buffer.items = typed.take limit ∧
      (after limit typed).tooLong = decide (limit < typed.length) ∧
      (after limit typed).buffer.InPlace limit := by
  induction typed using List.reverseRecOn with
  | nil => exact ⟨List.take_nil.symm, rfl, Buffer.inPlace_withCapacity⟩
  | append_singleton typed item ih =>
    obtain ⟨hitems, hlong, hplace⟩ := ih
    have hheld : (after limit typed).buffer.items.length = min limit typed.length := by
      rw [hitems, List.length_take]
    rw [after_concat, push]
    by_cases hfull : (after limit typed).buffer.items.length = limit
    · have hle : limit ≤ typed.length := by omega
      rw [if_pos hfull]
      refine ⟨?_, ?_, hplace⟩
      · rw [hitems, List.take_append_of_le_length hle]
      · symm
        rw [decide_eq_true_eq, List.length_append]
        exact Nat.lt_add_one_of_le hle
    · have hlt : typed.length < limit := by omega
      rw [if_neg hfull]
      refine ⟨?_, ?_, hplace.extend ?_⟩
      · rw [Buffer.items_extend, hitems, List.take_of_length_le (Nat.le_of_lt hlt),
          List.take_of_length_le (by rw [List.length_append]; exact hlt)]
      · rw [hlong, List.length_append, List.length_singleton]
        exact decide_eq_decide.mpr (by omega)
      · rw [hheld, List.length_singleton]
        omega

end Buffers
