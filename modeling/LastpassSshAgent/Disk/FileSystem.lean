import Mathlib.Data.Nat.Notation
import Mathlib.Logic.Function.Basic

/-!
# A file system of names and inodes

Names lead to files, to other names or to directories. No two names lead to one file, and
an inode that is not allocated yet is nobody's. Every operation says which names it
leaves as they were.
-/

namespace Disk

structure Inode (σ : Type) where
  contents : List σ
  mode : ℕ
  deriving DecidableEq, Repr

inductive Node (Name : Type) where
  | file (inode : ℕ)
  | symlink (target : Name)
  | directory
  deriving DecidableEq, Repr

structure FileSystem (Name σ : Type) where
  names : Name → Option (Node Name)
  inodes : ℕ → Inode σ
  next : ℕ
  allocated : ∀ name i, names name = some (.file i) → i < next
  single : ∀ name name' i, names name = some (.file i) → names name' = some (.file i) →
    name = name'

inductive Seen (Name σ : Type) where
  | absent
  | file (contents : List σ) (mode : ℕ)
  | symlink (target : Name)
  | directory
  deriving DecidableEq, Repr

namespace FileSystem

variable {Name σ : Type} (fs : FileSystem Name σ)

def seen (name : Name) : Seen Name σ :=
  match fs.names name with
  | none => .absent
  | some (.file i) => .file (fs.inodes i).contents (fs.inodes i).mode
  | some (.symlink target) => .symlink target
  | some .directory => .directory

/-! ### Operations on files -/

def setInode (i : ℕ) (inode : Inode σ) : FileSystem Name σ :=
  { fs with inodes := Function.update fs.inodes i inode }

/-- What an offset past the end leaves in between reads as the default symbol. -/
def overwrite [Inhabited σ] (contents : List σ) (offset : ℕ) (symbols : List σ) : List σ :=
  contents.take offset ++ List.replicate (offset - contents.length) default ++ symbols ++
    contents.drop (offset + symbols.length)

def write [Inhabited σ] (i offset : ℕ) (symbols : List σ) : FileSystem Name σ :=
  fs.setInode i { fs.inodes i with contents := overwrite (fs.inodes i).contents offset symbols }

/-- The file a name leads to, through so many links at most. -/
def resolve : ℕ → Name → Option ℕ
  | 0, _ => none
  | links + 1, name =>
    match fs.names name with
    | some (.file i) => some i
    | some (.symlink target) => resolve links target
    | _ => none

def MAX_LINKS : ℕ := 40

def chmod (name : Name) (mode : ℕ) : Option (FileSystem Name σ) :=
  (fs.resolve MAX_LINKS name).map fun i => fs.setInode i { fs.inodes i with mode }

/-- The name leads where it led, and to the same file if that is where. -/
structure Kept (fs fs' : FileSystem Name σ) (name : Name) : Prop where
  node : fs'.names name = fs.names name
  inode : ∀ i, fs.names name = some (.file i) → fs'.inodes i = fs.inodes i

variable {fs} {fs' : FileSystem Name σ} {name name' other : Name} {i : ℕ} {inode : Inode σ}

theorem Kept.refl (fs : FileSystem Name σ) (name : Name) : fs.Kept fs name := ⟨rfl, fun _ _ => rfl⟩

theorem Kept.seen (h : fs.Kept fs' name) : fs'.seen name = fs.seen name := by
  unfold FileSystem.seen
  rw [h.node]
  cases hnode : fs.names name with
  | none => rfl
  | some node =>
    cases node with
    | file i => simp only [h.inode i hnode]
    | symlink target => rfl
    | directory => rfl

theorem seen_file (h : fs.names name = some (.file i)) :
    fs.seen name = .file (fs.inodes i).contents (fs.inodes i).mode := by
  rw [seen, h]

theorem kept_setInode (h : fs.names name = some (.file i)) (hne : other ≠ name) :
    fs.Kept (fs.setInode i inode) other where
  node := rfl
  inode j hj := by
    have hother : j ≠ i := by
      rintro rfl
      exact hne (fs.single other name j hj h)
    exact Function.update_of_ne hother _ _

theorem setInode_self : (fs.setInode i inode).inodes i = inode := Function.update_self _ _ _

theorem overwrite_end [Inhabited σ] {contents symbols : List σ} :
    overwrite contents contents.length symbols = contents ++ symbols := by
  simp [overwrite]

theorem chmod_file {mode : ℕ} (h : fs.names name = some (.file i)) :
    fs.chmod name mode = some (fs.setInode i { fs.inodes i with mode }) := by
  have hresolve : fs.resolve MAX_LINKS name = some i := by
    rw [MAX_LINKS, resolve, h]
  rw [chmod, hresolve, Option.map_some]

/-! ### Operations on names -/

variable [DecidableEq Name]

variable (fs) in
def create (name : Name) (mode : ℕ) : FileSystem Name σ where
  names := Function.update fs.names name (some (.file fs.next))
  inodes := Function.update fs.inodes fs.next ⟨[], mode⟩
  next := fs.next + 1
  allocated other i h := by
    by_cases heq : other = name
    · subst heq
      rw [Function.update_self] at h
      cases h
      exact Nat.lt_succ_self _
    · rw [Function.update_of_ne heq] at h
      exact Nat.lt_succ_of_lt (fs.allocated other i h)
  single other other' i h h' := by
    have hfresh {name : Name} (h : fs.names name = some (.file i)) : i ≠ fs.next :=
      Nat.ne_of_lt (fs.allocated name i h)
    by_cases heq : other = name
    · by_cases heq' : other' = name
      · rw [heq, heq']
      · rw [heq, Function.update_self] at h
        rw [Function.update_of_ne heq'] at h'
        cases h
        exact absurd rfl (hfresh h')
    · rw [Function.update_of_ne heq] at h
      by_cases heq' : other' = name
      · rw [heq', Function.update_self] at h'
        cases h'
        exact absurd rfl (hfresh h)
      · rw [Function.update_of_ne heq'] at h'
        exact fs.single other other' i h h'

variable (fs) in
/-- Open for writing: a file that is there is emptied and keeps its mode, one that is not
is created. A link is not followed. -/
def openTruncate (name : Name) (mode : ℕ) : Option (ℕ × FileSystem Name σ) :=
  match fs.names name with
  | none => some (fs.next, fs.create name mode)
  | some (.file i) => some (i, fs.setInode i { fs.inodes i with contents := [] })
  | some (.symlink _) => none
  | some .directory => none

theorem file_of_moved {names : Name → Option (Node Name)}
    (h : Function.update (Function.update names name none) name' (names name) other =
      some (.file i)) :
    other = name' ∧ names name = some (.file i) ∨
      other ≠ name' ∧ other ≠ name ∧ names other = some (.file i) := by
  by_cases heq' : other = name'
  · subst heq'
    rw [Function.update_self] at h
    exact .inl ⟨rfl, h⟩
  · rw [Function.update_of_ne heq'] at h
    by_cases heq : other = name
    · rw [heq, Function.update_self] at h
      cases h
    · rw [Function.update_of_ne heq] at h
      exact .inr ⟨heq', heq, h⟩

variable (fs) in
def move (name name' : Name) : FileSystem Name σ where
  names := Function.update (Function.update fs.names name none) name' (fs.names name)
  inodes := fs.inodes
  next := fs.next
  allocated other i h := by
    rcases file_of_moved h with ⟨-, hfile⟩ | ⟨-, -, hfile⟩
    · exact fs.allocated name i hfile
    · exact fs.allocated other i hfile
  single other other' i h h' := by
    rcases file_of_moved h with ⟨rfl, hfile⟩ | ⟨-, hne, hfile⟩
    · rcases file_of_moved h' with ⟨rfl, -⟩ | ⟨-, hne', hfile'⟩
      · rfl
      · exact absurd (fs.single other' name i hfile' hfile) hne'
    · rcases file_of_moved h' with ⟨rfl, hfile'⟩ | ⟨-, -, hfile'⟩
      · exact absurd (fs.single other name i hfile hfile') hne
      · exact fs.single other other' i hfile hfile'

variable (fs) in
/-- Put a name in another's place, in one step. Directories stay where they are. -/
def rename (name name' : Name) : Option (FileSystem Name σ) :=
  match fs.names name, fs.names name' with
  | none, _ => none
  | some .directory, _ => none
  | some _, some .directory => none
  | some _, _ => some (fs.move name name')

theorem kept_create {mode : ℕ} (hne : other ≠ name) : fs.Kept (fs.create name mode) other where
  node := Function.update_of_ne hne _ _
  inode j hj := Function.update_of_ne (Nat.ne_of_lt (fs.allocated other j hj)) _ _

theorem openTruncate_spec {mode : ℕ} (h : fs.openTruncate name mode = some (i, fs')) :
    fs'.names name = some (.file i) ∧ (fs'.inodes i).contents = [] ∧
      ∀ other, other ≠ name → fs.Kept fs' other := by
  unfold openTruncate at h
  split at h
  · obtain ⟨rfl, rfl⟩ := Prod.mk.inj (Option.some.inj h)
    refine ⟨Function.update_self _ _ _, ?_, fun other hne => kept_create hne⟩
    simp [create]
  · next j hname =>
    obtain ⟨rfl, rfl⟩ := Prod.mk.inj (Option.some.inj h)
    exact ⟨hname, by rw [setInode_self], fun other hne => kept_setInode hname hne⟩
  · cases h
  · cases h

theorem openTruncate_symlink {mode : ℕ} {target : Name}
    (h : fs.names name = some (.symlink target)) : fs.openTruncate name mode = none := by
  rw [openTruncate, h]

theorem exists_openTruncate {mode : ℕ}
    (h : fs.names name = none ∨ ∃ i, fs.names name = some (.file i)) :
    ∃ i fs', fs.openTruncate name mode = some (i, fs') := by
  unfold openTruncate
  rcases h with h | ⟨i, h⟩
  · rw [h]
    exact ⟨_, _, rfl⟩
  · rw [h]
    exact ⟨_, _, rfl⟩

theorem exists_rename (h : fs.names name = some (.file i)) (hdir : fs.seen name' ≠ .directory) :
    ∃ fs', fs.rename name name' = some fs' := by
  unfold rename
  rw [h]
  split
  · next hnone => cases hnone
  · next hnode => cases hnode
  · next hnode => exact absurd (by rw [seen, hnode]) hdir
  · exact ⟨_, rfl⟩

theorem rename_file (h : fs.names name = some (.file i))
    (hrename : fs.rename name name' = some fs') :
    fs'.names name' = some (.file i) ∧ fs'.inodes = fs.inodes ∧
      ∀ other, other ≠ name → other ≠ name' → fs.Kept fs' other := by
  have hmoved : fs' = fs.move name name' := by
    unfold rename at hrename
    rw [h] at hrename
    split at hrename
    · next hnone => cases hnone
    · next hdir => cases hdir
    · cases hrename
    · exact (Option.some.inj hrename).symm
  subst hmoved
  refine ⟨?_, rfl, fun other hother hother' => ⟨?_, fun _ _ => rfl⟩⟩
  · rw [← h]
    exact Function.update_self _ _ _
  · change Function.update _ _ _ _ = _
    rw [Function.update_of_ne hother', Function.update_of_ne hother]

end FileSystem

end Disk
