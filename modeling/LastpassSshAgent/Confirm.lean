import LastpassSshAgent.Keystore
import LastpassSshAgent.Requester

/-!
# What a confirmation shows, and what a remembered approval answers for
-/

namespace LastpassSshAgent

structure PeerInfo where
  pid : Option ℤ
  uid : ℕ
  deriving DecidableEq, Repr

/-- One verified hop of the session the connection is bound to. -/
structure SessionBinding where
  hostFingerprint : String
  hostName : Option String
  isForwarding : Bool
  sessionId : Bytes
  hostKey : Bytes
  deriving DecidableEq, Repr

structure ConfirmContext where
  keyName : String
  fingerprint : String
  itemId : String
  peer : Option PeerInfo
  requester : Option Requester
  bindings : List SessionBinding
  deriving DecidableEq, Repr

inductive Decision where
  | approve | deny
  deriving DecidableEq, Repr

namespace ConfirmContext

/-- The requester is looked up once, here. -/
def new (ssh : Ssh) (table : Processes) (entry : KeyEntry) (peer : Option PeerInfo)
    (bindings : List SessionBinding) : ConfirmContext where
  keyName := entry.name
  fingerprint := entry.fingerprint ssh
  itemId := entry.itemId
  peer := peer
  requester := (peer.bind PeerInfo.pid).bind (Requester.of table)
  bindings := bindings

end ConfirmContext

def arrow : String := " → "

/-- Who asked, on one line, and what it was started from on the next. -/
def describeRequester (ctx : ConfirmContext) : String :=
  match ctx.peer, ctx.requester with
  | none, _ => "unknown"
  | some peer, none =>
    match peer.pid with
    | none => s!"uid {peer.uid}"
    | some pid => s!"unknown process (pid {pid}, uid {peer.uid})"
  | some peer, some requester =>
    let line := s!"{requester.process} (pid {peer.pid.getD 0}, uid {peer.uid})"
    if requester.origin.isEmpty then line
    else line ++ "\nStarted from: " ++ arrow.intercalate (requester.origin.map Ancestor.name)

def describeHop (bind : SessionBinding) : String :=
  let hop := displayBounded (bind.hostName.getD bind.hostFingerprint)
  if bind.isForwarding then hop ++ " (forwarding the agent onward)" else hop

def forwardingWarning : String :=
  "\n\nWARNING: the agent is forwarded to a host below — this request may have originated there rather than on this machine."

/-- The warning stands ahead of the hops: a chain is as long as a forwarded peer
cares to make it, and a dialog clips at the bottom. -/
def describeBindings (bindings : List SessionBinding) : String :=
  if bindings.isEmpty then ""
  else (if bindings.any SessionBinding.isForwarding then forwardingWarning else "") ++
    "\nSSH session: " ++ arrow.intercalate (bindings.map describeHop)

def describeRequest (ctx : ConfirmContext) : String :=
  "SSH signature request\n\nKey: " ++ displayBounded ctx.keyName ++
    "\nFingerprint: " ++ escapeForDisplay ctx.fingerprint ++
    "\nLastPass item: " ++ escapeForDisplay ctx.itemId ++
    "\nRequested by: " ++ describeRequester ctx ++ describeBindings ctx.bindings

def SEP : String := "\x1f"

def FIELD : String := "\x1e"

def questionHop (bind : SessionBinding) : String :=
  escapeForDisplay bind.hostFingerprint ++ FIELD ++
    (bind.hostName.map escapeForDisplay).getD "" ++ FIELD ++
    (if bind.isForwarding then "forwarding" else "")

/-- `none` when the requester cannot be told from another: an approval for
whatever runs as this uid would answer for every process. -/
def approvalQuestion (ctx : ConfirmContext) : Option String :=
  match ctx.peer, ctx.requester with
  | some peer, some requester =>
    let pieces := [escapeForDisplay ctx.itemId, escapeForDisplay ctx.fingerprint,
      escapeForDisplay ctx.keyName, requester.process, toString peer.uid,
      SEP.intercalate (requester.origin.map Ancestor.path),
      SEP.intercalate (ctx.bindings.map questionHop)]
    some (String.join (pieces.map fun piece => piece ++ "\n"))
  | _, _ => none

end LastpassSshAgent
