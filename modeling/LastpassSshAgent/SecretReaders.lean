import LastpassSshAgent.Buffers.Capped
import LastpassSshAgent.LpassCli

/-!
# Reading a secret from a pipe

The answer of a passphrase helper and the output of `lpass` are read a chunk at a time, and
the cap is looked at before each chunk is kept. Where the chunks fall changes nothing of what
is read, and no part of a secret is left behind by a buffer that grew.
-/

namespace LastpassSshAgent

open Buffers

def helperFailed (why : String) : PromptError :=
  .unavailable s!"passphrase helper failed: {why}"

/-- Where the reader of a helper's answer has come after these reads. -/
def readSecret (reads : List (Except String Bytes)) : Reading PromptError UInt8 :=
  readCapped MAX_PASSPHRASE_BYTES MAX_PASSPHRASE_BYTES (.tooLong MAX_PASSPHRASE_BYTES)
    (reads.map (Except.mapError helperFailed))

/-- As `readSecret`, for what `lpass` prints: a listing may outgrow the room for a field. -/
def readOutput (maxBytes : ℕ) (reads : List (Except String Bytes)) : Reading LpassError UInt8 :=
  readCapped (min maxBytes MAX_FIELD_BYTES) maxBytes (.fieldTooLarge maxBytes)
    (reads.map (Except.mapError .spawn))

theorem result_readSecret {size : ℕ} {stream : Bytes} (split : Chunking size stream) :
    (readSecret split.reads).result = some (if stream.length ≤ MAX_PASSPHRASE_BYTES then .ok stream
      else .error (.tooLong MAX_PASSPHRASE_BYTES)) := by
  rw [readSecret, split.map_reads, result_readCapped]

theorem result_readOutput {size : ℕ} {stream : Bytes} (maxBytes : ℕ) (split : Chunking size stream) :
    (readOutput maxBytes split.reads).result = some (if stream.length ≤ maxBytes then .ok stream
      else .error (.fieldTooLarge maxBytes)) := by
  rw [readOutput, split.map_reads, result_readCapped]

theorem CmdOutput.of_readOutput {size : ℕ} {stdout : Bytes} (split : Chunking size stdout)
    (fed : Bool) (maxBytes : ℕ) (code : Option ℤ) (stderr : Bytes) :
    (readOutput maxBytes split.reads).result.map (Except.map fun out =>
      ⟨code == some 0, code, fed, stripNewline out, diagnostics stderr⟩) =
        some (CmdOutput.of fed maxBytes (.exited code stdout stderr)) := by
  rw [result_readOutput, CmdOutput.of]
  by_cases hfits : stdout.length ≤ maxBytes
  · rw [if_pos hfits, if_neg (Nat.not_lt.mpr hfits)]
    rfl
  · rw [if_neg hfits, if_pos (Nat.lt_of_not_le hfits)]
    rfl

theorem inPlace_readSecret {reads : List (Except String Bytes)} {out : Buffer UInt8}
    (h : (readSecret reads).buffer = some out) : out.InPlace MAX_PASSPHRASE_BYTES :=
  inPlace_of_readCapped (Nat.le_refl _) h

theorem inPlace_readOutput {maxBytes : ℕ} (hfield : maxBytes ≤ MAX_FIELD_BYTES)
    {reads : List (Except String Bytes)} {out : Buffer UInt8}
    (h : (readOutput maxBytes reads).buffer = some out) : out.InPlace maxBytes := by
  rw [readOutput, Nat.min_eq_left hfield] at h
  exact inPlace_of_readCapped (Nat.le_refl _) h

/-- A stream is read whole if it is within the cap and refused if it is not, in whatever
chunks it comes; and the buffer, after any reads at all, is the one that was allocated. -/
theorem secret_readers (stream : Bytes) :
    (∀ split : Chunking 256 stream, (readSecret split.reads).result =
      some (if stream.length ≤ MAX_PASSPHRASE_BYTES then .ok stream
        else .error (.tooLong MAX_PASSPHRASE_BYTES))) ∧
    (∀ (maxBytes : ℕ) (split : Chunking 8192 stream), (readOutput maxBytes split.reads).result =
      some (if stream.length ≤ maxBytes then .ok stream else .error (.fieldTooLarge maxBytes))) ∧
    (∀ split split' : Chunking 256 stream,
      (readSecret split.reads).result = (readSecret split'.reads).result) ∧
    (∀ (maxBytes : ℕ) (split split' : Chunking 8192 stream),
      (readOutput maxBytes split.reads).result = (readOutput maxBytes split'.reads).result) ∧
    (∀ reads out, (readSecret reads).buffer = some out →
      out.items.length ≤ MAX_PASSPHRASE_BYTES ∧ out.capacity = MAX_PASSPHRASE_BYTES ∧
        out.freed = []) ∧
    ∀ maxBytes ≤ MAX_FIELD_BYTES, ∀ reads out, (readOutput maxBytes reads).buffer = some out →
      out.items.length ≤ maxBytes ∧ out.capacity = maxBytes ∧ out.freed = [] := by
  refine ⟨result_readSecret, result_readOutput, ?_, ?_, ?_, ?_⟩
  · intro split split'
    rw [result_readSecret, result_readSecret]
  · intro maxBytes split split'
    rw [result_readOutput, result_readOutput]
  · intro reads out hout
    have hplace := inPlace_readSecret hout
    exact ⟨hplace.length_le, hplace⟩
  · intro maxBytes hfield reads out hout
    have hplace := inPlace_readOutput hfield hout
    exact ⟨hplace.length_le, hplace⟩

end LastpassSshAgent
