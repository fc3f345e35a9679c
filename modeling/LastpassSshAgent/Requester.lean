import Mathlib.Data.Int.Notation
import LastpassSshAgent.Text

/-!
# Who is asking: the process behind a request and what it was started from
-/

namespace LastpassSshAgent

/-- One process above the requester: its display name, and its whole path. -/
structure Ancestor where
  name : String
  path : String
  deriving DecidableEq, Repr

structure Requester where
  process : String
  origin : List Ancestor
  deriving DecidableEq, Repr

structure Processes where
  path : ℤ → Option String
  parent : ℤ → Option ℤ

def MAX_ORIGIN_DEPTH : ℕ := 8

def stripSuffix (suffix text : List Char) : Option (List Char) :=
  if suffix.isSuffixOf text then some (text.take (text.length - suffix.length)) else none

/-- The app bundle when it runs from one, the outermost; its file name otherwise. -/
def displayName (path : String) : String :=
  let parts := path.toList.splitOn '/'
  match (parts.findSome? (stripSuffix ".app".toList)).filter (!·.isEmpty) with
  | some stem => String.ofList stem
  | none => String.ofList (parts.getLast?.getD path.toList)

/-- Walk up at most `depth` parents, stopping before pid 1 and at the first that
cannot be read; consecutive repeats of one executable collapse. -/
def originChainFrom (table : Processes) : ℕ → ℤ → List Ancestor → List Ancestor
  | 0, _, ancestors => ancestors
  | depth + 1, current, ancestors =>
    match (table.parent current).filter (1 < ·) with
    | none => ancestors
    | some next =>
      match table.path next with
      | none => ancestors
      | some path =>
        let path := escapeForDisplay path
        if (ancestors.getLast?.map Ancestor.path) = some path then
          originChainFrom table depth next ancestors
        else originChainFrom table depth next (ancestors ++ [⟨displayName path, path⟩])

def Requester.of (table : Processes) (pid : ℤ) : Option Requester :=
  (table.path pid).map fun path =>
    ⟨escapeForDisplay path, originChainFrom table MAX_ORIGIN_DEPTH pid []⟩

end LastpassSshAgent
