import LastpassSshAgent.Histories
import Mathlib.Data.List.Induction
import Mathlib.Data.List.Nodup

/-!
# The chain of session bindings

What one extension request can do to a connection's bindings, the shape the list keeps
whatever a peer sends, and that a forwarding hop stays in front of the user.
-/

namespace LastpassSshAgent

open Resumption

/-! ### What one request can do -/

def Ssh.keyIn (ssh : Ssh) (hostKey : Bytes) : Except String KeyData :=
  if isCertificate hostKey then ssh.certificateFromBytes hostKey else ssh.publicFromBytes hostKey

/-- The key in the binding's host key has signed the session id. -/
def Verified (ssh : Ssh) (bind : SessionBindRequest) (key : KeyData) : Prop :=
  ssh.keyIn bind.hostKey = .ok key ∧ ∃ signature,
    ssh.signatureDecode bind.signature = .ok (signature, []) ∧
    ssh.verify key bind.sessionId signature = .ok ()

def Binds (extension : Extension) (bind : SessionBindRequest) : Prop :=
  extension.name = sessionBindName ∧ sessionBind extension.details = .ok (some bind)

/-- `extension` is the binding that `hop` was recorded from, and its host has proved
itself. -/
def Vouches (ssh : Ssh) (extension : Extension) (hop : SessionBinding) : Prop :=
  ∃ bind key, Binds extension bind ∧ Verified ssh bind key ∧
    bind.sessionId.length ≤ MAX_SESSION_ID_BYTES ∧ bind.hostKey.length ≤ MAX_HOST_KEY_BYTES ∧
    hop = ⟨ssh.fingerprint key, none, bind.isForwarding, bind.sessionId, bind.hostKey⟩

def Bound (bindings : List SessionBinding) (bind : SessionBindRequest) : Prop :=
  ∃ hop ∈ bindings, hop.hostKey = bind.hostKey ∧ hop.sessionId = bind.sessionId

variable {ssh : Ssh} {bindings : List SessionBinding} {extension : Extension}
  {bind : SessionBindRequest} {key : KeyData} {hop : SessionBinding}

/-- What a request comes to: nothing recorded, or one hop more after hops that all
forward. -/
inductive Handled (ssh : Ssh) (bindings : List SessionBinding) (extension : Extension) :
    Response × List SessionBinding → Prop
  | kept (response : Response)
      (replay : response = .success → ∃ bind, Binds extension bind ∧ Bound bindings bind) :
      Handled ssh bindings extension (response, bindings)
  | pushed (hop : SessionBinding) (vouched : Vouches ssh extension hop)
      (forwards : ∀ last ∈ bindings.getLast?, last.isForwarding = true)
      (fresh : ∀ seen ∈ bindings, seen.sessionId ≠ hop.sessionId)
      (room : bindings.length < MAX_SESSION_BINDINGS) :
      Handled ssh bindings extension (.success, bindings ++ [hop])

theorem Handled.failed : Handled ssh bindings extension (.failure, bindings) := .kept _ nofun

theorem boundSignature_eq_ok {signature : Signature} : boundSignature ssh bind = .ok signature ↔
    ssh.signatureDecode bind.signature = .ok (signature, []) := by
  unfold boundSignature
  cases ssh.signatureDecode bind.signature with
  | error e => exact iff_of_false nofun nofun
  | ok decoded =>
    obtain ⟨signature', rest⟩ := decoded
    by_cases hrest : rest = []
    · simp [hrest]
    · simp [hrest]

theorem boundHostKey_eq_ok : boundHostKey ssh bind = .ok key ↔ Verified ssh bind key := by
  unfold boundHostKey Verified Ssh.keyIn
  simp only [bind_eq_ok, mapError_eq_ok, boundSignature_eq_ok]
  constructor
  · rintro ⟨hostKey, hkey, signature, hsignature, ⟨⟩, hverify, hdone⟩
    obtain rfl := Except.ok.inj hdone
    exact ⟨hkey, signature, hsignature, hverify⟩
  · rintro ⟨hkey, signature, hsignature, hverify⟩
    exact ⟨key, hkey, signature, hsignature, (), hverify, rfl⟩

theorem handled_of_hop (hbinds : Binds extension bind) (hverified : Verified ssh bind key)
    (hid : bind.sessionId.length ≤ MAX_SESSION_ID_BYTES)
    (hhost : bind.hostKey.length ≤ MAX_HOST_KEY_BYTES) :
    Handled ssh bindings extension (bindHop ssh bindings bind key) := by
  unfold bindHop
  split_ifs with hlast hreplay hseen hroom
  · exact .failed
  · refine .kept _ fun _ => ⟨bind, hbinds, ?_⟩
    simpa [Bound] using hreplay
  · exact .failed
  · exact .failed
  · refine .pushed _ ⟨bind, key, hbinds, hverified, hid, hhost, rfl⟩ ?_ ?_ ?_
    · intro last hmem
      simpa [Option.mem_def.mp hmem] using hlast
    · simpa using hseen
    · omega

theorem handleExtension_handled (ssh : Ssh) (bindings : List SessionBinding) (extension : Extension) :
    Handled ssh bindings extension (handleExtension ssh bindings extension) := by
  unfold handleExtension
  split_ifs with hquery hname
  · exact .kept _ nofun
  · exact .failed
  · unfold handleSessionBind
    split
    · next bind hparsed =>
      split_ifs with hid hhost
      · exact .failed
      · exact .failed
      · split
        · next key hkey =>
          exact handled_of_hop ⟨not_not.mp hname, hparsed⟩ (boundHostKey_eq_ok.mp hkey)
            (not_lt.mp hid) (not_lt.mp hhost)
        · exact .failed
    · exact .failed

/-! ### The chain -/

/-- A connection's bindings after the extension requests it has sent, oldest first. -/
def bound (ssh : Ssh) (extensions : List Extension) : List SessionBinding :=
  extensions.foldl (fun bindings extension => (handleExtension ssh bindings extension).2) []

structure Chain (ssh : Ssh) (extensions : List Extension) (bindings : List SessionBinding) :
    Prop where
  short : bindings.length ≤ MAX_SESSION_BINDINGS
  distinct : (bindings.map SessionBinding.sessionId).Nodup
  forwarding : ∀ hop ∈ bindings.dropLast, hop.isForwarding = true
  vouched : ∀ hop ∈ bindings, ∃ extension ∈ extensions, Vouches ssh extension hop

variable {extensions later : List Extension}

theorem bound_append : bound ssh (extensions ++ later) = later.foldl
    (fun bindings extension => (handleExtension ssh bindings extension).2)
    (bound ssh extensions) := List.foldl_append

theorem bound_concat : bound ssh (extensions ++ [extension]) =
    (handleExtension ssh (bound ssh extensions) extension).2 := bound_append

theorem Chain.nil : Chain ssh [] [] := ⟨Nat.zero_le _, List.nodup_nil, nofun, nofun⟩

/-- A hop that does not forward is the last. -/
theorem Chain.last_of_destination (h : Chain ssh extensions bindings) (hhop : hop ∈ bindings)
    (hends : hop.isForwarding = false) : bindings.getLast? = some hop := by
  cases hbindings : bindings.getLast? with
  | none =>
    rw [List.getLast?_eq_none_iff.mp hbindings] at hhop
    exact absurd hhop List.not_mem_nil
  | some last =>
    rw [← List.dropLast_append_getLast? last hbindings] at hhop
    rcases List.mem_append.mp hhop with hhop | hhop
    · exact absurd (hends.symm.trans (h.forwarding hop hhop)) nofun
    · rw [List.mem_singleton.mp hhop]

theorem Chain.forwarding_all (h : Chain ssh extensions bindings)
    (hlast : ∀ last ∈ bindings.getLast?, last.isForwarding = true) :
    ∀ hop ∈ bindings, hop.isForwarding = true := by
  intro hop hhop
  by_contra hends
  have hends : hop.isForwarding = false := by simpa using hends
  exact absurd (hends.symm.trans (hlast hop (h.last_of_destination hhop hends))) nofun

theorem Chain.step (h : Chain ssh extensions bindings) :
    Chain ssh (extensions ++ [extension]) (handleExtension ssh bindings extension).2 := by
  have hvouched : ∀ hop ∈ bindings, ∃ e ∈ extensions ++ [extension], Vouches ssh e hop := by
    intro hop hhop
    obtain ⟨e, he, hv⟩ := h.vouched hop hhop
    exact ⟨e, List.mem_append_left _ he, hv⟩
  cases hresult : handleExtension ssh bindings extension with
  | mk response after =>
    have hhandled := handleExtension_handled ssh bindings extension
    rw [hresult] at hhandled
    cases hhandled with
    | kept _ _ => exact ⟨h.short, h.distinct, h.forwarding, hvouched⟩
    | pushed hop hop_vouched forwards fresh room =>
      refine ⟨?_, ?_, ?_, ?_⟩
      · rw [List.length_append]
        exact room
      · rw [List.map_append, List.nodup_append]
        refine ⟨h.distinct, List.nodup_singleton _, ?_⟩
        simpa using fresh
      · rw [List.dropLast_concat]
        exact h.forwarding_all forwards
      · intro seen hseen
        rcases List.mem_append.mp hseen with hseen | hseen
        · exact hvouched seen hseen
        · obtain rfl := List.mem_singleton.mp hseen
          exact ⟨extension, by simp, hop_vouched⟩

theorem bound_chain (ssh : Ssh) (extensions : List Extension) :
    Chain ssh extensions (bound ssh extensions) := by
  induction extensions using List.reverseRecOn with
  | nil => exact Chain.nil
  | append_singleton extensions extension ih =>
    rw [bound_concat]
    exact ih.step

/-! ### One request -/

/-- What one request leaves of the bindings it finds, and what its answer says. -/
structure Step (ssh : Ssh) (bindings : List SessionBinding) (extension : Extension)
    (response : Response) (after : List SessionBinding) : Prop where
  grown : bindings <+: after ∧ after.length ≤ bindings.length + 1
  failed : response = .failure → after = bindings
  replayed : ∀ bind, Binds extension bind → Bound bindings bind → after = bindings
  succeeded : ∀ bind, Binds extension bind → response = .success → Bound after bind
  ended : ∀ last ∈ bindings.getLast?, last.isForwarding = false → after = bindings

theorem Binds.unique {bind' : SessionBindRequest} (h : Binds extension bind)
    (h' : Binds extension bind') : bind = bind' :=
  Option.some.inj (Except.ok.inj (h.2.symm.trans h'.2))

theorem Handled.step {response : Response} {after : List SessionBinding}
    (h : Handled ssh bindings extension (response, after)) :
    Step ssh bindings extension response after := by
  cases h with
  | kept _ replay =>
    refine ⟨⟨List.prefix_rfl, Nat.le_succ _⟩, fun _ => rfl, fun _ _ _ => rfl, ?_, fun _ _ _ => rfl⟩
    intro bind hbinds hsuccess
    obtain ⟨bind', hbinds', hbound⟩ := replay hsuccess
    obtain rfl := hbinds.unique hbinds'
    exact hbound
  | pushed hop vouched forwards fresh _ =>
    obtain ⟨bind, key, hbinds, -, -, -, rfl⟩ := vouched
    refine ⟨⟨List.prefix_append _ _, by simp⟩, nofun, ?_, ?_, ?_⟩
    · rintro bind' hbinds' ⟨seen, hseen, -, hsession⟩
      obtain rfl := hbinds.unique hbinds'
      exact absurd hsession (fresh seen hseen)
    · intro bind' hbinds' _
      obtain rfl := hbinds.unique hbinds'
      exact ⟨_, List.mem_append_right _ (List.mem_singleton_self _), rfl, rfl⟩
    · intro last hlast hends
      exact absurd (hends.symm.trans (forwards last hlast)) nofun

theorem handleExtension_step (ssh : Ssh) (bindings : List SessionBinding) (extension : Extension) :
    Step ssh bindings extension (handleExtension ssh bindings extension).1
      (handleExtension ssh bindings extension).2 := (handleExtension_handled ssh bindings extension).step

/-! ### Later requests -/

theorem bound_initial (extensions later : List Extension) :
    bound ssh extensions <+: bound ssh (extensions ++ later) := by
  induction later using List.reverseRecOn with
  | nil => simp
  | append_singleton later extension ih =>
    rw [← List.append_assoc, bound_concat]
    exact ih.trans (handleExtension_step ssh _ extension).grown.1

theorem bound_of_destination (hhop : hop ∈ bound ssh extensions)
    (hends : hop.isForwarding = false) (later : List Extension) :
    bound ssh (extensions ++ later) = bound ssh extensions := by
  induction later using List.reverseRecOn with
  | nil => rw [List.append_nil]
  | append_singleton later extension ih =>
    rw [← List.append_assoc, bound_concat, ih]
    exact (handleExtension_step ssh _ extension).ended hop
      ((bound_chain ssh extensions).last_of_destination hhop hends) hends

/-! ### What the user sees -/

/-- The hop is named in the text, as one that forwards the agent, under the warning. -/
def Warned (hop : SessionBinding) (text : String) : Prop :=
  ∃ (name : Option String) (head middle tail : String),
    text = head ++ forwardingWarning ++ middle ++
      (displayBounded (name.getD hop.hostFingerprint) ++ " (forwarding the agent onward)") ++ tail

theorem intercalate_of_mem (separator : String) {piece : String} {pieces : List String}
    (h : piece ∈ pieces) : ∃ head tail, separator.intercalate pieces = head ++ piece ++ tail := by
  induction pieces with
  | nil => exact absurd h List.not_mem_nil
  | cons first rest ih =>
    cases rest with
    | nil =>
      obtain rfl := List.mem_singleton.mp h
      exact ⟨"", "", by simp⟩
    | cons second rest =>
      rw [String.intercalate_cons_cons]
      rcases List.mem_cons.mp h with rfl | h
      · exact ⟨"", separator ++ separator.intercalate (second :: rest), by
          simp [String.append_assoc]⟩
      · obtain ⟨head, tail, heq⟩ := ih h
        exact ⟨first ++ separator ++ head, tail, by rw [heq]; simp [String.append_assoc]⟩

/-- Naming the hosts loses no hop and changes nothing else about one. -/
theorem mem_nameBindings (hhop : hop ∈ bindings) (names : List (Option String)) :
    ∃ name, { hop with hostName := name } ∈ LpassAgent.nameBindings bindings names := by
  induction bindings generalizing names with
  | nil => exact absurd hhop List.not_mem_nil
  | cons bind bindings ih =>
    cases names with
    | nil => exact ⟨hop.hostName, hhop⟩
    | cons name names =>
      rcases List.mem_cons.mp hhop with rfl | hhop
      · exact ⟨name, List.mem_cons_self⟩
      · obtain ⟨name', hname⟩ := ih hhop names
        exact ⟨name', List.mem_cons_of_mem _ hname⟩

theorem describeBindings_of_forwarding (h : bindings.any SessionBinding.isForwarding = true) :
    describeBindings bindings =
      forwardingWarning ++ "\nSSH session: " ++ arrow.intercalate (bindings.map describeHop) := by
  have hne : bindings.isEmpty = false := by
    cases bindings with
    | nil => exact absurd h nofun
    | cons _ _ => rfl
  rw [describeBindings, hne, h, if_neg Bool.false_ne_true, if_pos rfl]

theorem warned_of_mem {ctx : ConfirmContext} {name : Option String}
    (hhop : { hop with hostName := name } ∈ ctx.bindings) (hforwards : hop.isForwarding = true) :
    Warned hop (describeRequest ctx) := by
  have hwarning := describeBindings_of_forwarding (List.any_eq_true.mpr ⟨_, hhop, hforwards⟩)
  have hshown : describeHop { hop with hostName := name } =
      displayBounded (name.getD hop.hostFingerprint) ++ " (forwarding the agent onward)" := by
    rw [describeHop, if_pos hforwards]
  obtain ⟨head, tail, hhops⟩ := intercalate_of_mem arrow
    (List.mem_map_of_mem (f := describeHop) hhop)
  obtain ⟨front, hfront⟩ : ∃ front, describeRequest ctx = front ++ describeBindings ctx.bindings :=
    ⟨_, rfl⟩
  refine ⟨name, front, "\nSSH session: " ++ head, tail, ?_⟩
  rw [hfront, hwarning, hhops, hshown]
  simp only [String.append_assoc]

theorem about_of_asked {env : Env} {s : Stage runtime} {t : ℕ} {peer : Option PeerInfo}
    {request : SignRequest} {ctx : ConfirmContext} (h : env.Lawful s)
    (hstarted : s.Did t (.started (.sign peer bindings request)))
    (hasked : s.Did t (.began (.confirm ctx))) :
    ∃ names, ctx.bindings = LpassAgent.nameBindings bindings names := by
  obtain ⟨x, hx, hxt, hxa⟩ := hstarted
  obtain ⟨y, hy, rfl, hya⟩ := hasked
  obtain ⟨newer, older, hs⟩ := List.append_of_mem hy
  obtain ⟨s₀, -, rfl, -, -, ⟨-, -, job, hserve, table, names, rfl⟩, -⟩ := began_of_cut h hs hya
  obtain ⟨-, w, hw, hwt, hwa, -⟩ := hserve
  have hw' : w ∈ s.history := hs ▸ List.mem_append_right _ (List.mem_cons_of_mem _ hw)
  obtain rfl := Rules.Lawful.started_unique h hx hw' (hxt.trans hwt.symm) hxa hwa
  obtain ⟨-, rfl, -⟩ := Task.sign.inj (Act.started.inj (hxa.symm.trans hwa))
  exact ⟨names, rfl⟩

/-- Over any requests of a connection, and any run of the agent that serves it. -/
structure KeepsChain (env : Env) (P : Pool runtime) : Prop where
  chain : ∀ extensions, Chain env.ssh extensions (bound env.ssh extensions)
  step : ∀ extensions extension, bound env.ssh (extensions ++ [extension]) =
      (handleExtension env.ssh (bound env.ssh extensions) extension).2 ∧
    Step env.ssh (bound env.ssh extensions) extension
      (handleExtension env.ssh (bound env.ssh extensions) extension).1
      (handleExtension env.ssh (bound env.ssh extensions) extension).2
  destination : ∀ extensions, ∀ hop ∈ bound env.ssh extensions, hop.isForwarding = false →
    ∀ later, bound env.ssh (extensions ++ later) = bound env.ssh extensions
  /-- A forwarding hop is in every question the connection puts to the user afterwards. -/
  warned : ∀ earlier, ∀ hop ∈ bound env.ssh earlier, hop.isForwarding = true →
    ∀ later t peer request ctx,
      P.stage.Did t (.started (.sign peer (bound env.ssh (earlier ++ later)) request)) →
      P.stage.Did t (.began (.confirm ctx)) → Warned hop (describeRequest ctx)

def forwardedHop : Extension :=
  ⟨sessionBindName, [0, 0, 0, 1, 8, 0, 0, 0, 2, 9, 9, 0, 0, 0, 2, 9, 9, 1]⟩

/-- The user is asked about a userauth request of that connection. -/
def forwarded : List (Move runtime) :=
  [Sample.sign 0 Sample.plain (bound Sample.ssh [forwardedHop])
      ([0, 0, 0, 2, 9, 9, 50, 0, 0, 0, 0, 0, 0, 0, 14] ++ sshConnection ++ [0, 0, 0, 9] ++
        publickeyMethod ++ [1, 0, 0, 0, 0, 0, 0, 0, 32] ++ Sample.plain.keyData.blob),
    Sample.go 0, Sample.go 0]

def AskedForwarded (history : List (Entry runtime)) : Prop :=
  ∃ x ∈ history[0]?, x.tid = 0 ∧ x.act = .began (.confirm (.new Sample.ssh Sample.world.processes
    ⟨"11", "plain", Sample.plain, true, .prompt⟩ (some ⟨some 7, 501⟩)
    [⟨"SHA256:NLdqJRa09Cyk2UmlrxigWOPAmSNg4WqfM9zePIBAklU", none, true, [9, 9], [8]⟩]))

instance (history : List (Entry runtime)) : Decidable (AskedForwarded history) :=
  inferInstanceAs (Decidable (∃ x ∈ history[0]?, _))

end LastpassSshAgent
