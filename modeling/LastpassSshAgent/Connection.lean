import LastpassSshAgent.Advertised
import LastpassSshAgent.Bindings
import LastpassSshAgent.Passphrases
import LastpassSshAgent.Userauth

/-!
# A connection, from its first request to its last

A connection's requests are served one after another. It asks for the identities, asks for
signatures and binds itself to sessions in whatever order its peer likes, and what it may
have signed depends on the bindings that came before.
-/

namespace LastpassSshAgent

open Resumption

/-! ### The requests -/

structure Identity where
  keyData : KeyData
  comment : String
  deriving DecidableEq, Repr

/-- Adding, removing and locking are among the `other` requests. -/
inductive Request where
  | requestIdentities
  | sign (request : SignRequest)
  | extension (extension : Extension)
  | other
  deriving DecidableEq, Repr

inductive Reply where
  | identitiesAnswer (identities : List Identity)
  | response (response : Response)
  deriving DecidableEq, Repr

def KeyStore.identities (store : KeyStore) : List Identity :=
  store.entries.map fun entry =>
    ⟨entry.publicKey.keyData, s!"lastpass:{entry.itemId} ({entry.name})"⟩

namespace LpassAgent

variable (agent : LpassAgent)

def signed (request : SignRequest) : Async (Except AgentError Signature) := do
  let (result, gate) ← agent.signRequest request InteractionGate.new
  note (.replied result)
  InteractionGate.drop gate
  pure result

/-- The task of a signing request does what the request does. -/
theorem sign_eq (request : SignRequest) :
    agent.sign request = (agent.signed request >>= fun _ => pure ()) := by
  have hdrop : ∀ gate : Bool,
      ((InteractionGate.drop gate).bind fun _ => .done ()) = InteractionGate.drop gate :=
    fun gate => Program.bind_done _
  simp only [sign, signed, Program.bind_def, Program.pure_def, Program.bind_bind, Program.bind,
    hdrop]

def toResponse : Except AgentError Signature → Response
  | .ok signature => .signature signature
  | .error _ => .failure

def handle (request : Request) : Async (Reply × LpassAgent) :=
  match request with
  | .requestIdentities => do
    let w ← world
    pure (.identitiesAnswer w.served.identities, agent)
  | .sign request => do
    let result ← agent.signed request
    pure (.response (toResponse result), agent)
  | .extension extension =>
    let (response, bindings) := handleExtension agent.ssh agent.bindings extension
    pure (.response response, { agent with bindings := bindings })
  | .other => pure (.response .failure, agent)

/-- A connection from its first request to its last, with the replies. -/
def serve (agent : LpassAgent) : List Request → Async (List Reply)
  | [] => pure []
  | request :: requests => do
    let (reply, agent) ← agent.handle request
    let replies ← serve agent requests
    pure (reply :: replies)

end LpassAgent

/-! ### What a signature is made with -/

/-- A signature over the data of a request, by the private key in `pem`, which is the entry's,
decrypted if it has to be. -/
def MadeWith (ssh : Ssh) (entry : KeyEntry) (pem : Bytes) (request : SignRequest)
    (signature : Signature) : Prop :=
  ∃ key key', ssh.privateFromOpenssh pem = .ok key ∧
    key.publicKey.keyData = entry.publicKey.keyData ∧
    (key' = key ∨ ∃ secret, ssh.decrypt key secret = .ok key') ∧
    signWithKey ssh key' request.data request.flags = .ok signature

section

variable {Good : World → Prop} {entry : KeyEntry}

namespace Unlocker

variable {unlocker : Unlocker} {encrypted : PrivateKey}

def Unlocks (ssh : Ssh) (encrypted : PrivateKey) (r : Except String PrivateKey × Bool) : Prop :=
  ∀ key, r.1 = .ok key → ∃ secret, ssh.decrypt encrypted secret = .ok key

theorem unlocks_decrypt (secret : Bytes) (gate : Bool) :
    Unlocks unlocker.ssh encrypted (decrypt unlocker.ssh encrypted secret, gate) :=
  fun _ h => ⟨secret, decrypt_eq_ok.mp h⟩

theorem askAndSave_unlocks (gate : Bool) :
    (unlocker.askAndSave entry encrypted gate).Gives Good (Unlocks unlocker.ssh encrypted) := by
  refine (Program.Keeps.any _).bind fun r _ => ?_
  obtain ⟨answer, gate⟩ := r
  cases answer with
  | error e => exact fun _ h => nomatch h
  | ok typed =>
    dsimp only
    split
    · exact fun _ h => nomatch h
    · rename_i key hkey
      refine ⟨trivial, fun _ => ⟨trivial, fun key' h => ?_⟩⟩
      obtain rfl := Except.ok.inj h
      exact ⟨typed, decrypt_eq_ok.mp hkey⟩

theorem unlockFromStore_unlocks (gate : Bool) :
    (unlocker.unlockFromStore entry encrypted gate).Gives Good
      (Unlocks unlocker.ssh encrypted) := by
  refine (Program.Keeps.any _).bind fun gate _ => ⟨trivial, fun saved => ⟨trivial, ?_⟩⟩
  dsimp only [Program.bind]
  split
  · rename_i key hkey
    intro key' h
    obtain rfl := Except.ok.inj h
    obtain ⟨secret, -, -, hdecrypt⟩ := fromSaved_eq_some hkey
    exact ⟨secret, hdecrypt⟩
  · exact askAndSave_unlocks gate

theorem unlock_unlocks (gate : Bool) :
    (unlocker.unlock entry encrypted gate).Gives Good (Unlocks unlocker.ssh encrypted) := by
  refine (Program.Keeps.any _).bind fun stored _ => ?_
  cases stored with
  | error e => exact fun _ h => nomatch h
  | ok stored =>
    dsimp only
    split_ifs
    · unfold fallBack
      split
      · exact fun _ h => nomatch h
      · refine (Program.Keeps.any _).bind fun r _ key h => ?_
        obtain ⟨answer, gate⟩ := r
        cases answer with
        | error e => cases h
        | ok typed => exact unlocks_decrypt typed gate key h
      · exact unlockFromStore_unlocks gate
      · exact unlockFromStore_unlocks gate
    · exact unlocks_decrypt stored gate

end Unlocker

namespace LpassAgent

variable {agent : LpassAgent} {request : SignRequest}

theorem signMatched_made {pem : Bytes} {key : PrivateKey} (gate : Bool)
    (hunlocker : agent.unlocker.ssh = agent.ssh)
    (hparse : agent.ssh.privateFromOpenssh pem = .ok key)
    (hpublic : key.publicKey.keyData = entry.publicKey.keyData) :
    (agent.signMatched entry key request.data request.flags gate).Gives Good fun r =>
      ∀ signature, r.1 = .ok signature → MadeWith agent.ssh entry pem request signature := by
  unfold signMatched
  split_ifs
  · refine Unlocker.unlock_unlocks gate |>.bind fun r hr signature h => ?_
    obtain ⟨unlocked, gate⟩ := r
    obtain ⟨key', hunlocked, hsign⟩ := bind_eq_ok.mp h
    obtain ⟨secret, hdecrypt⟩ := hr key' hunlocked
    exact ⟨key, key', hparse, hpublic, .inr ⟨secret, hunlocker ▸ hdecrypt⟩,
      mapError_eq_ok.mp hsign⟩
  · intro signature h
    exact ⟨key, key, hparse, hpublic, .inl rfl, mapError_eq_ok.mp h⟩

theorem signWith_made (gate : Bool) (hunlocker : agent.unlocker.ssh = agent.ssh)
    (fetched : Except LpassError Bytes) :
    (agent.signWith entry fetched request.data request.flags gate).Gives Good fun r =>
      ∀ signature, r.1 = .ok signature →
        ∃ pem, fetched = .ok pem ∧ MadeWith agent.ssh entry pem request signature := by
  have hdiscard : ∀ {item why text : String} {gate : Bool},
      (agent.discardRemembered item why >>= fun _ => pure (.error text, gate)).Gives Good
        fun r : Except String Signature × Bool => ∀ signature, r.1 = .ok signature →
          ∃ pem, fetched = .ok pem ∧ MadeWith agent.ssh entry pem request signature :=
    fun {_ _ _ _} => (Program.Keeps.any _).bind fun _ _ _ h => nomatch h
  unfold signWith
  split
  · rename_i pem
    unfold signFetched
    split_ifs
    · exact fun _ h => nomatch h
    split
    · exact fun _ h => nomatch h
    · rename_i key hparse
      split_ifs with hpublic
      · exact (signMatched_made gate hunlocker hparse hpublic).mono fun r hr signature h =>
          ⟨pem, rfl, hr signature h⟩
      · exact hdiscard
  · rename_i e
    by_cases hgone : isGone e = true
    · rw [if_pos hgone]
      exact hdiscard
    · rw [if_neg hgone]
      exact fun _ h => nomatch h

theorem release_gives (answer : Answer) (asked : Bool) (made : Except String Signature) :
    (agent.release answer asked made).Gives Good fun result =>
      ∀ signature, result = .ok signature → made = .ok signature := by
  refine fun w _ => ⟨trivial, ?_⟩
  dsimp only [Program.bind]
  split
  · split_ifs
    · refine ⟨trivial, fun signature h => ?_⟩
      obtain rfl := Except.ok.inj h
      rfl
    · intro signature h
      obtain rfl := Except.ok.inj h
      rfl
  · exact fun _ h => nomatch h
  · exact fun _ h => nomatch h

def HandedOver (acts : List (Act runtime)) (item : String) (pem : Bytes) : Prop :=
  ∃ source, .noted (.returned source item "Private Key" (.ok pem)) ∈ acts

theorem handedOver_of_fetch {gate gate' : Bool} {fetch : Fetch} {acts : List (Act runtime)}
    {pem : Bytes} (h : (agent.fetchPrivateKey entry gate).Traces acts (fetch, gate'))
    (hpem : fetch.key = .ok pem) : HandedOver acts entry.itemId pem := by
  obtain ⟨first, front, rest, rfl, hfirst, hrest⟩ := Program.traces_bind.mp h
  have hnoted := noted_of_showField hfirst
  by_cases hlocked : first = .error .locked
  · subst hlocked
    have hasking : (agent.fetchAsking entry gate).Traces rest (fetch, gate') := hrest
    obtain ⟨gate₁, entering, looking, rfl, -, hlooking⟩ := Program.traces_bind.mp hasking
    cases hlooking with
    | read before hasking =>
      dsimp only [Program.bind] at hasking
      obtain ⟨key, asking, last, rfl, hkey, hlast⟩ := Program.traces_bind.mp hasking
      cases hlast with
      | read after hdone =>
        obtain ⟨rfl, hfetch⟩ := Program.traces_done.mp hdone
        obtain ⟨rfl, -⟩ := Prod.mk.inj hfetch
        obtain rfl : key = .ok pem := hpem
        exact ⟨agent.asking.source, by simp [noted_of_showField hkey]⟩
  · have hfetch : fetch = ⟨first, false⟩ := by
      split at hrest
      · exact absurd rfl hlocked
      · exact (Prod.mk.inj (Program.traces_done.mp hrest).2).1
    subst hfetch
    obtain rfl : first = .ok pem := hpem
    exact ⟨agent.lpass.source, List.mem_append_left _ hnoted⟩

theorem signEntry_made {gate gate' : Bool} {acts : List (Act runtime)} {signature : Signature}
    (hunlocker : agent.unlocker.ssh = agent.ssh)
    (h : (agent.signEntry entry request gate).Traces acts (.ok signature, gate')) :
    ∃ pem, HandedOver acts entry.itemId pem ∧ MadeWith agent.ssh entry pem request signature := by
  obtain ⟨⟨answer, gate⟩, front, rest, rfl, -, h⟩ := Program.traces_bind.mp h
  cases answer with
  | error e => cases (Program.traces_done.mp h).2
  | ok answer =>
    obtain ⟨⟨fetch, gate⟩, fetching, rest, rfl, hfetch, h⟩ := Program.traces_bind.mp h
    obtain ⟨⟨made, gate⟩, signing, rest, rfl, hmade, h⟩ := Program.traces_bind.mp h
    obtain ⟨result, releasing, rest, rfl, hrelease, h⟩ := Program.traces_bind.mp h
    obtain ⟨rfl, -⟩ := Prod.mk.inj (Program.traces_done.mp h).2
    have hsigned := ((release_gives answer fetch.asked made).traces hrelease).2 signature rfl
    obtain ⟨pem, hpem, hwith⟩ :=
      ((signWith_made _ hunlocker fetch.key).traces hmade).2 signature hsigned
    obtain ⟨source, hsource⟩ := handedOver_of_fetch hfetch hpem
    exact ⟨pem, ⟨source, by simp [hsource]⟩, hwith⟩

/-- A signature is for the entry that the set had when its request began, and the private key
it is made with is the one that this request was handed. -/
theorem signed_made {reads : List World} {acts : List (Act runtime)} {signature : Signature}
    (hunlocker : agent.unlocker.ssh = agent.ssh)
    (h : (agent.signed request).Sees reads acts (.ok signature)) :
    ∃ w later entry pem, reads = w :: later ∧ w.served.lookup request.keyData = some entry ∧
      agent.boundElsewhere entry request.data = false ∧ HandedOver acts entry.itemId pem ∧
      MadeWith agent.ssh entry pem request signature ∧
      .noted (.replied (.ok signature)) ∈ acts := by
  obtain ⟨⟨result, gate⟩, seen, later, front, rest, rfl, rfl, hrequest, h⟩ :=
    Program.sees_bind.mp h
  obtain ⟨⟨⟩, _, _, telling, rest, rfl, rfl, htold, h⟩ := Program.sees_bind.mp h
  obtain ⟨⟨⟩, _, _, dropping, rest, rfl, rfl, -, h⟩ := Program.sees_bind.mp h
  obtain ⟨rfl, rfl, heq⟩ := Program.sees_done.mp h
  obtain rfl := heq
  have hreplied : .noted (.replied (.ok signature)) ∈ telling := by
    cases htold
    exact List.mem_cons_self
  cases hrequest with
  | read w hrequest =>
    dsimp only [Program.bind] at hrequest
    split at hrequest
    · cases (Program.sees_done.mp hrequest).2.2
    · rename_i entry hentry
      split_ifs at hrequest with hbound
      · cases (Program.sees_done.mp hrequest).2.2
      · obtain ⟨pem, ⟨source, hsource⟩, hmade⟩ := signEntry_made hunlocker hrequest.traces
        exact ⟨w, _, entry, pem, rfl, hentry, by simpa using hbound, ⟨source, by simp [hsource]⟩,
          hmade, by simp [hreplied]⟩

end LpassAgent

end

/-! ### One request after another -/

def extensionsOf : List Request → List Extension
  | [] => []
  | .extension extension :: requests => extension :: extensionsOf requests
  | _ :: requests => extensionsOf requests

/-- A userauth request for the session of a binding, with its host and the entry's key. -/
def AuthenticatesTo (ssh : Ssh) (entry : KeyEntry) (data : Bytes) (last : SessionBinding) : Prop :=
  ∃ userauth : Userauth, userauth.sessionId.bytes = last.sessionId ∧
    userauth.For ((ssh.publicToBytes entry.publicKey).toOption.getD []) last.hostKey ∧
    data = userauth.encode

/-- What a request comes to on a connection bound to `bindings`, with the states it read and
what it did. Only a signing request does anything, and that as the task that the pool runs. -/
inductive Answers (env : Env) (peer : Option PeerInfo) (bindings : List SessionBinding) :
    Request → List World → List (Act runtime) → Reply → Prop
  | identities (w : World) : Answers env peer bindings .requestIdentities [w] []
      (.identitiesAnswer w.served.identities)
  | refused {request : SignRequest} {reads : List World} {acts : List (Act runtime)}
      (task : (env.code (.sign peer bindings request)).Traces acts ()) :
      Answers env peer bindings (.sign request) reads acts (.response .failure)
  | signed {request : SignRequest} {signature : Signature} {w : World} {later : List World}
      {acts : List (Act runtime)} {entry : KeyEntry} {pem : Bytes}
      (task : (env.code (.sign peer bindings request)).Traces acts ())
      (served : w.served.lookup request.keyData = some entry)
      (fetched : LpassAgent.HandedOver acts entry.itemId pem)
      (made : MadeWith env.ssh entry pem request signature)
      (replied : .noted (.replied (.ok signature)) ∈ acts)
      (restricted : ∀ last ∈ bindings.getLast?,
        AuthenticatesTo env.ssh entry request.data last) :
      Answers env peer bindings (.sign request) (w :: later) acts (.response (.signature signature))
  | extension (extension : Extension) : Answers env peer bindings (.extension extension) [] []
      (.response (handleExtension env.ssh bindings extension).1)
  | other : Answers env peer bindings .other [] [] (.response .failure)

/-- Each request is answered after those before it, on the bindings that their extensions have
left. -/
inductive Conversation (env : Env) (peer : Option PeerInfo) :
    List Extension → List Request → List World → List (Act runtime) → List Reply → Prop
  | nil {earlier : List Extension} : Conversation env peer earlier [] [] [] []
  | cons {earlier : List Extension} {request : Request} {requests : List Request}
      {reads reads' : List World} {acts acts' : List (Act runtime)} {reply : Reply}
      {replies : List Reply}
      (answers : Answers env peer (bound env.ssh earlier) request reads acts reply)
      (rest : Conversation env peer (earlier ++ extensionsOf [request]) requests reads' acts'
        replies) :
      Conversation env peer earlier (request :: requests) (reads ++ reads') (acts ++ acts')
        (reply :: replies)

variable {env : Env} {peer : Option PeerInfo} {earlier : List Extension}

abbrev Env.connection (env : Env) (peer : Option PeerInfo) (earlier : List Extension) :
    LpassAgent :=
  env.session peer (bound env.ssh earlier)

theorem extensionsOf_append (requests later : List Request) :
    extensionsOf (requests ++ later) = extensionsOf requests ++ extensionsOf later := by
  induction requests with
  | nil => rfl
  | cons request requests ih =>
    cases request with
    | extension extension => exact congrArg (extension :: ·) ih
    | _ => exact ih

theorem signed_traces {agent : LpassAgent} {request : SignRequest}
    {result : Except AgentError Signature} {acts : List (Act runtime)}
    (h : (agent.signed request).Traces acts result) : (agent.sign request).Traces acts () := by
  rw [LpassAgent.sign_eq]
  exact Program.traces_bind.mpr ⟨result, acts, [], by simp, h, .done ()⟩

/-- One request: its answer, and the connection bound as the extensions so far say. -/
theorem handle_answers {request : Request} {reads : List World} {acts : List (Act runtime)}
    {reply : Reply} {agent : LpassAgent}
    (h : ((env.connection peer earlier).handle request).Sees reads acts (reply, agent)) :
    Answers env peer (bound env.ssh earlier) request reads acts reply ∧
      agent = env.connection peer (earlier ++ extensionsOf [request]) := by
  have hkept : env.connection peer earlier = env.connection peer (earlier ++ []) := by
    rw [List.append_nil]
  cases request with
  | requestIdentities =>
    cases h with
    | read w h =>
      obtain ⟨rfl, rfl, heq⟩ := Program.sees_done.mp h
      obtain ⟨rfl, rfl⟩ := Prod.mk.inj heq
      exact ⟨.identities w, hkept⟩
  | sign request =>
    obtain ⟨result, seen, later, signing, rest, rfl, rfl, hsigned, h⟩ := Program.sees_bind.mp h
    obtain ⟨rfl, rfl, heq⟩ := Program.sees_done.mp h
    obtain ⟨rfl, rfl⟩ := Prod.mk.inj heq
    rw [List.append_nil, List.append_nil]
    have htask := signed_traces hsigned.traces
    refine ⟨?_, hkept⟩
    cases result with
    | error e => exact .refused htask
    | ok signature =>
      obtain ⟨w, later, entry, pem, rfl, hentry, hfree, hfetched, hmade, hreplied⟩ :=
        LpassAgent.signed_made rfl hsigned
      exact .signed htask hentry hfetched hmade hreplied fun last hlast =>
        userauth_of_bound hlast hfree
  | extension extension =>
    obtain ⟨rfl, rfl, heq⟩ := Program.sees_done.mp h
    obtain ⟨rfl, rfl⟩ := Prod.mk.inj heq
    refine ⟨.extension extension, ?_⟩
    have hbound : bound env.ssh (earlier ++ extensionsOf [.extension extension]) =
        (handleExtension env.ssh (bound env.ssh earlier) extension).2 := bound_concat
    exact congrArg (env.session peer) hbound.symm
  | other =>
    obtain ⟨rfl, rfl, heq⟩ := Program.sees_done.mp h
    obtain ⟨rfl, rfl⟩ := Prod.mk.inj heq
    exact ⟨.other, hkept⟩

theorem serve_conversation {requests : List Request} {reads : List World}
    {acts : List (Act runtime)} {replies : List Reply}
    (h : ((env.connection peer earlier).serve requests).Sees reads acts replies) :
    Conversation env peer earlier requests reads acts replies := by
  induction requests generalizing earlier reads acts replies with
  | nil =>
    obtain ⟨rfl, rfl, rfl⟩ := Program.sees_done.mp h
    exact .nil
  | cons request requests ih =>
    obtain ⟨⟨reply, agent⟩, seen, later, front, rest, rfl, rfl, hrequest, hlater⟩ :=
      Program.sees_bind.mp h
    obtain ⟨hanswers, rfl⟩ := handle_answers hrequest
    obtain ⟨replies', later, last, back, done, rfl, rfl, hserve, hdone⟩ :=
      Program.sees_bind.mp hlater
    obtain ⟨rfl, rfl, rfl⟩ := Program.sees_done.mp hdone
    rw [List.append_nil, List.append_nil]
    exact .cons hanswers (ih hserve)

/-! ### Over a whole connection -/

variable {requests : List Request} {reads : List World} {acts : List (Act runtime)}
  {replies : List Reply}

theorem Conversation.length (h : Conversation env peer earlier requests reads acts replies) :
    replies.length = requests.length := by
  induction h with
  | nil => rfl
  | cons _ _ ih => exact congrArg (· + 1) ih

theorem Conversation.at {before later : List Request} {request : Request}
    (h : Conversation env peer earlier (before ++ request :: later) reads acts replies) :
    ∃ reply seen done, replies[before.length]? = some reply ∧ seen <:+: reads ∧ done <:+: acts ∧
      Answers env peer (bound env.ssh (earlier ++ extensionsOf before)) request seen done reply := by
  induction before generalizing earlier reads acts replies with
  | nil =>
    cases h with
    | cons answers _ =>
      rw [extensionsOf, List.append_nil]
      exact ⟨_, _, _, rfl, (List.prefix_append _ _).isInfix, (List.prefix_append _ _).isInfix,
        answers⟩
  | cons first before ih =>
    cases h with
    | cons _ rest =>
      obtain ⟨reply, seen, done, hreply, hseen, hdone, hanswers⟩ := ih rest
      have hcons : extensionsOf (first :: before) = extensionsOf [first] ++ extensionsOf before :=
        extensionsOf_append [first] before
      rw [List.append_assoc, ← hcons] at hanswers
      exact ⟨reply, seen, done, by simpa using hreply,
        hseen.trans (List.suffix_append _ _).isInfix, hdone.trans (List.suffix_append _ _).isInfix,
        hanswers⟩

def Served (reads : List World) (request : SignRequest) (entry : KeyEntry) : Prop :=
  ∃ w ∈ reads, w.served.lookup request.keyData = some entry

/-- What a peer gets of a connection that read `reads` and did `acts`: `replies[i]?` is the
reply to the request that `i` requests came before. -/
structure HeldToBindings (env : Env) (peer : Option PeerInfo) (requests : List Request)
    (reads : List World) (acts : List (Act runtime)) (replies : List Reply) : Prop where
  inTurn : Conversation env peer [] requests reads acts replies
  aligned : replies.length = requests.length
  answers : ∀ before request later, requests = before ++ request :: later →
    ∃ reply seen done, replies[before.length]? = some reply ∧ seen <:+: reads ∧ done <:+: acts ∧
      Answers env peer (bound env.ssh (extensionsOf before)) request seen done reply
  /-- After a binding that succeeded, whatever is signed authenticates to the session bound
  last, and the host of that session has vouched for it on this connection. -/
  restricted : ∀ before extension bind mid request later signature,
    requests = before ++ .extension extension :: (mid ++ .sign request :: later) →
    Binds extension bind → replies[before.length]? = some (.response .success) →
    replies[(before ++ .extension extension :: mid).length]? =
      some (.response (.signature signature)) →
    ∃ last entry,
      (bound env.ssh (extensionsOf (before ++ .extension extension :: mid))).getLast? = some last ∧
      Served reads request entry ∧ AuthenticatesTo env.ssh entry request.data last ∧
      ∃ vouching, .extension vouching ∈ before ++ .extension extension :: mid ∧
        Vouches env.ssh vouching last
  /-- After a destination, nothing is signed but for its session, whatever is bound later. -/
  destination : ∀ before hop mid request later signature,
    requests = before ++ (mid ++ .sign request :: later) →
    hop ∈ bound env.ssh (extensionsOf before) → hop.isForwarding = false →
    replies[(before ++ mid).length]? = some (.response (.signature signature)) →
    ∃ entry, Served reads request entry ∧ AuthenticatesTo env.ssh entry request.data hop

theorem mem_extensionsOf {requests : List Request} {extension : Extension} :
    extension ∈ extensionsOf requests ↔ .extension extension ∈ requests := by
  induction requests with
  | nil => exact iff_of_false List.not_mem_nil List.not_mem_nil
  | cons request requests ih =>
    cases request with
    | extension first => simp [extensionsOf, ih]
    | _ => simp [extensionsOf, ih]

theorem Answers.of_extension {bindings : List SessionBinding} {extension : Extension}
    {reply : Reply} (h : Answers env peer bindings (.extension extension) reads acts reply) :
    reply = .response (handleExtension env.ssh bindings extension).1 := by
  cases h
  rfl

theorem Answers.of_signature {bindings : List SessionBinding} {request : SignRequest}
    {signature : Signature}
    (h : Answers env peer bindings (.sign request) reads acts (.response (.signature signature))) :
    ∃ entry, Served reads request entry ∧
      ∀ last ∈ bindings.getLast?, AuthenticatesTo env.ssh entry request.data last := by
  cases h with
  | @signed _ _ w _ _ entry _ _ served _ _ _ restricted =>
    exact ⟨entry, ⟨w, List.mem_cons_self, served⟩, restricted⟩

theorem bound_of_success {extension : Extension} {bind : SessionBindRequest}
    (hbinds : Binds extension bind)
    (hsuccess : (handleExtension env.ssh (bound env.ssh earlier) extension).1 = .success)
    (later : List Extension) : Bound (bound env.ssh (earlier ++ extension :: later)) bind := by
  obtain ⟨hop, hhop, hbound⟩ :=
    (handleExtension_step env.ssh (bound env.ssh earlier) extension).succeeded bind hbinds hsuccess
  rw [← bound_concat] at hhop
  have hinitial : bound env.ssh (earlier ++ [extension]) <+:
      bound env.ssh (earlier ++ [extension] ++ later) := bound_initial _ _
  rw [List.append_assoc] at hinitial
  exact ⟨hop, hinitial.subset hhop, hbound⟩

theorem Conversation.held (h : Conversation env peer [] requests reads acts replies) :
    HeldToBindings env peer requests reads acts replies := by
  have hanswers : ∀ before request later, requests = before ++ request :: later →
      ∃ reply seen done, replies[before.length]? = some reply ∧ seen <:+: reads ∧ done <:+: acts ∧
        Answers env peer (bound env.ssh (extensionsOf before)) request seen done reply := by
    rintro before request later rfl
    exact h.at
  have hreplied : ∀ before request later reply, requests = before ++ request :: later →
      replies[before.length]? = some reply → ∃ seen done, seen <:+: reads ∧
        Answers env peer (bound env.ssh (extensionsOf before)) request seen done reply := by
    intro before request later reply hrequests hreply
    obtain ⟨reply', seen, done, hreply', hseen, -, hanswer⟩ := hanswers before request later hrequests
    obtain rfl := Option.some.inj (hreply.symm.trans hreply')
    exact ⟨seen, done, hseen, hanswer⟩
  have hsigned : ∀ before request later signature, requests = before ++ .sign request :: later →
      replies[before.length]? = some (.response (.signature signature)) → ∃ entry,
        Served reads request entry ∧ ∀ last ∈ (bound env.ssh (extensionsOf before)).getLast?,
          AuthenticatesTo env.ssh entry request.data last := by
    intro before request later signature hrequests hreply
    obtain ⟨seen, done, hseen, hanswer⟩ := hreplied before _ later _ hrequests hreply
    obtain ⟨entry, ⟨w, hw, hserved⟩, hrestricted⟩ := hanswer.of_signature
    exact ⟨entry, ⟨w, hseen.subset hw, hserved⟩, hrestricted⟩
  refine ⟨h, h.length, hanswers, ?_, ?_⟩
  · intro before extension bind mid request later signature hrequests hbinds hsuccess hreply
    obtain ⟨seen, done, -, hanswer⟩ := hreplied before _ _ _ hrequests hsuccess
    obtain ⟨hop, hhop, -⟩ := bound_of_success hbinds (Reply.response.inj hanswer.of_extension).symm
      (extensionsOf mid)
    have hsplit : extensionsOf (before ++ .extension extension :: mid) =
        extensionsOf before ++ extension :: extensionsOf mid := extensionsOf_append before _
    rw [← hsplit] at hhop
    obtain ⟨entry, hserved, hrestricted⟩ :=
      hsigned (before ++ .extension extension :: mid) request later signature
        (by simpa using hrequests) hreply
    obtain ⟨last, hlast⟩ := Option.isSome_iff_exists.mp
      (List.getLast?_isSome.mpr (List.ne_nil_of_mem hhop))
    obtain ⟨vouching, hvouching, hvouches⟩ :=
      (bound_chain env.ssh _).vouched last (List.mem_of_getLast? hlast)
    exact ⟨last, entry, hlast, hserved, hrestricted last hlast, vouching,
      mem_extensionsOf.mp hvouching, hvouches⟩
  · intro before hop mid request later signature hrequests hhop hends hreply
    obtain ⟨entry, hserved, hrestricted⟩ :=
      hsigned (before ++ mid) request later signature (by simpa using hrequests) hreply
    refine ⟨entry, hserved, hrestricted hop ?_⟩
    rw [extensionsOf_append, bound_of_destination hhop hends]
    exact (bound_chain env.ssh _).last_of_destination hhop hends

/-- However its peer orders the requests of a connection, and whatever it reads and is told,
its replies are held to its bindings, and all it does it does as the pool's signing tasks. -/
theorem connection_held
    (h : ((env.session peer []).serve requests).Sees reads acts replies) :
    HeldToBindings env peer requests reads acts replies := by
  have hconversation : ((env.connection peer []).serve requests).Sees reads acts replies := h
  exact (serve_conversation hconversation).held

namespace Sample

def login : Userauth :=
  { hostBound with sessionId := ⟨[7], by decide⟩, hostKey := none }

def destination : Extension where
  name := sessionBindName
  details := toBeBytes 1 ++ [9] ++ (toBeBytes 1 ++ [7]) ++ (toBeBytes 1 ++ [7]) ++ [0]

/-- The second signature is for no session. -/
def visit : List Request :=
  [.requestIdentities, .extension destination, .sign ⟨plain.keyData, login.encode, 0⟩,
    .sign ⟨plain.keyData, [5], 0⟩]

end Sample

theorem connection_held_visit : ∃ reads acts replies,
    HeldToBindings Sample.env none Sample.visit reads acts replies ∧
      replies[2]? = some (.response (.signature ⟨"ssh-ed25519", Sample.login.encode⟩)) ∧
      replies[3]? = some (.response .failure) := by
  let answer := Sample.answer (.exited (some 0) [1] []) [2]
  let connection := (Sample.env.session none []).serve Sample.visit
  have hreplies : (connection.replay answer Sample.world).2[2]? =
        some (.response (.signature ⟨"ssh-ed25519", Sample.login.encode⟩)) ∧
      (connection.replay answer Sample.world).2[3]? = some (.response .failure) := by
    decide +kernel
  obtain ⟨reads, hsees⟩ := (Program.traces_replay answer Sample.world connection).sees
  exact ⟨reads, _, _, connection_held hsees, hreplies⟩

end LastpassSshAgent
