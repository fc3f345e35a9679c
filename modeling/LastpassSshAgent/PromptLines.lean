import LastpassSshAgent.Histories
import LastpassSshAgent.Questions

/-!
# The lines of a prompt

Every name in a prompt is escaped, so the only line feeds are the agent's own. The lines
are read back off the text, each with its label, and how many there are does not depend
on any name.
-/

namespace LastpassSshAgent

open Resumption

/-! ### The lines -/

/-- What the prompt says of who asked, but for what that was started from. -/
def requestedBy (ctx : ConfirmContext) : String :=
  match ctx.peer, ctx.requester with
  | none, _ => "unknown"
  | some peer, none =>
    match peer.pid with
    | none => s!"uid {peer.uid}"
    | some pid => s!"unknown process (pid {pid}, uid {peer.uid})"
  | some peer, some requester => s!"{requester.process} (pid {peer.pid.getD 0}, uid {peer.uid})"

def ConfirmContext.origin (ctx : ConfirmContext) : List Ancestor :=
  (ctx.requester.map Requester.origin).getD []

def warningLine : String :=
  "WARNING: the agent is forwarded to a host below — this request may have originated there rather than on this machine."

/-- The lines that say what is signed with and who asked: a label, and what follows it. -/
def promptHead (ctx : ConfirmContext) : List (String × String) :=
  [("SSH signature request", ""), ("", ""), ("Key: ", displayBounded ctx.keyName),
    ("Fingerprint: ", escapeForDisplay ctx.fingerprint),
    ("LastPass item: ", escapeForDisplay ctx.itemId), ("Requested by: ", requestedBy ctx)] ++
  if ctx.origin.isEmpty then []
  else [("Started from: ", arrow.intercalate (ctx.origin.map Ancestor.name))]

/-- The lines about the session: the warning when a hop forwards the agent, then the
hops, oldest first. -/
def promptTail (bindings : List SessionBinding) : List (String × String) :=
  (if bindings.any SessionBinding.isForwarding then [("", ""), (warningLine, "")] else []) ++
  if bindings.isEmpty then []
  else [("SSH session: ", arrow.intercalate (bindings.map describeHop))]

def promptLines (ctx : ConfirmContext) : List (String × String) :=
  promptHead ctx ++ promptTail ctx.bindings

def shownLine (line : String × String) : String := line.1 ++ line.2

theorem describeBindings_eq (bindings : List SessionBinding) : describeBindings bindings =
    String.join ((promptTail bindings).map fun line => "\n" ++ shownLine line) := by
  have hwarning : forwardingWarning = "\n" ++ "" ++ ("\n" ++ warningLine) := by decide +kernel
  have hsession : "\nSSH session: " = "\n" ++ "SSH session: " := by decide +kernel
  rw [describeBindings, promptTail, hsession]
  by_cases hbound : bindings.isEmpty = true
  · obtain rfl := List.isEmpty_iff.mp hbound
    rfl
  · rw [if_neg hbound, if_neg hbound]
    by_cases hforwarding : bindings.any SessionBinding.isForwarding = true
    · rw [if_pos hforwarding, if_pos hforwarding, hwarning]
      simp [-String.reduceAppend, shownLine, String.append_assoc]
    · rw [if_neg hforwarding, if_neg hforwarding]
      simp [-String.reduceAppend, shownLine, String.append_assoc]

theorem describeRequester_eq {ctx : ConfirmContext} (h : ctx.peer = none → ctx.requester = none) :
    describeRequester ctx = requestedBy ctx ++ if ctx.origin.isEmpty then ""
      else "\n" ++ ("Started from: " ++ arrow.intercalate (ctx.origin.map Ancestor.name)) := by
  have hstarted : "\nStarted from: " = "\n" ++ "Started from: " := by decide +kernel
  rw [describeRequester, requestedBy, ConfirmContext.origin, hstarted]
  cases hpeer : ctx.peer with
  | none => simp [h hpeer]
  | some peer =>
    cases hrequester : ctx.requester with
    | none => exact (String.append_empty ..).symm
    | some requester =>
      by_cases horigin : requester.origin.isEmpty = true
      · simp [horigin]
      · simp [-String.reduceAppend, horigin, String.append_assoc]

theorem intercalate_newline (line : String) (lines : List String) :
    "\n".intercalate (line :: lines) = line ++ String.join (lines.map fun next => "\n" ++ next) := by
  induction lines generalizing line with
  | nil => simp
  | cons next lines ih =>
    rw [String.intercalate_cons_cons, ih, List.map_cons, String.join_cons, String.append_assoc,
      String.append_assoc]

theorem describeRequest_lines {ctx : ConfirmContext} (h : ctx.peer = none → ctx.requester = none) :
    describeRequest ctx = "\n".intercalate ((promptLines ctx).map shownLine) := by
  have hkey : "SSH signature request\n\nKey: " =
      "SSH signature request" ++ ("\n" ++ ("\n" ++ "Key: ")) := by decide +kernel
  have hfingerprint : "\nFingerprint: " = "\n" ++ "Fingerprint: " := by decide +kernel
  have hitem : "\nLastPass item: " = "\n" ++ "LastPass item: " := by decide +kernel
  have hrequested : "\nRequested by: " = "\n" ++ "Requested by: " := by decide +kernel
  delta describeRequest
  rw [describeRequester_eq h, describeBindings_eq, hkey, hfingerprint, hitem, hrequested, promptLines,
    promptHead]
  by_cases horigin : ctx.origin.isEmpty = true
  · simp [-String.reduceAppend, horigin, shownLine, intercalate_newline, String.append_assoc,
      Function.comp_def]
  · simp [-String.reduceAppend, horigin, shownLine, intercalate_newline, String.append_assoc,
      Function.comp_def]

/-! ### What is shown of a name -/

/-- At most so much of a name as is shown of one, and how much was left out. -/
def Bounded (text shown : String) : Prop :=
  ∃ kept omitted : List Char, (escapeForDisplay text).toList = kept ++ omitted ∧
    kept.length ≤ MAX_DISPLAY_CHARS ∧ shown = String.ofList kept ++
      if omitted = [] then "" else s!"… [{omitted.length} more]"

theorem bounded_displayBounded (text : String) : Bounded text (displayBounded text) := by
  rw [displayBounded]
  by_cases hfits : (escapeForDisplay text).toList.length ≤ MAX_DISPLAY_CHARS
  · rw [if_pos hfits]
    exact ⟨_, [], (List.append_nil _).symm, hfits, by simp⟩
  · rw [if_neg hfits]
    have homitted : (escapeForDisplay text).toList.drop MAX_DISPLAY_CHARS ≠ [] := by
      rw [Ne, List.drop_eq_nil_iff]
      omega
    refine ⟨_, _, (List.take_append_drop MAX_DISPLAY_CHARS _).symm, List.length_take_le _ _, ?_⟩
    rw [if_neg homitted]

theorem separated_of_plainText {text : String} (h : PlainText text) (seps : List Char) :
    Separated seps text := fun c hc => .inl (h c hc)

theorem separated_displayBounded (text : String) : Separated [] (displayBounded text) := by
  obtain ⟨kept, omitted, htext, -, hshown⟩ := bounded_displayBounded text
  have hkept : Separated [] (String.ofList kept) := by
    intro c hc
    rw [String.toList_ofList] at hc
    exact .inl (plain_of_mem_escapeForDisplay (htext ▸ List.mem_append_left omitted hc))
  have hopen : Separated [] "… [" := separated_of_plainText (by decide) []
  have hclose : Separated [] " more]" := separated_of_plainText (by decide) []
  rw [hshown]
  refine hkept.append ?_
  split_ifs
  · exact separated_of_plainText (by decide) []
  · exact (hopen.append (separated_repr [] _)).append hclose

theorem separated_int (n : ℤ) : Separated [] (toString n) := by
  cases n with
  | ofNat m => exact separated_repr [] m
  | negSucc m =>
    exact (separated_of_plainText (show PlainText "-" by decide) []).append (separated_repr [] (m + 1))

theorem separated_describeHop (bind : SessionBinding) : Separated [] (describeHop bind) := by
  rw [describeHop]
  split_ifs
  · exact (separated_displayBounded _).append (separated_of_plainText (by decide) [])
  · exact separated_displayBounded _

theorem mem_of_mem_displayName {path : String} {c : Char} (h : c ∈ (displayName path).toList) :
    c ∈ path.toList := by
  rw [displayName] at h
  split at h
  · next stem hstem =>
    obtain ⟨hfound, -⟩ := Option.filter_eq_some_iff.mp hstem
    obtain ⟨part, hpart, hstrip⟩ := List.exists_of_findSome?_eq_some hfound
    rw [stripSuffix] at hstrip
    split_ifs at hstrip
    rw [String.toList_ofList, ← Option.some.inj hstrip] at h
    exact Framing.subset_of_mem_splitOn hpart (List.mem_of_mem_take h)
  · cases hlast : (path.toList.splitOn '/').getLast? with
    | none => simpa [hlast] using h
    | some part =>
      rw [hlast, Option.getD_some, String.toList_ofList] at h
      exact Framing.subset_of_mem_splitOn (List.mem_of_getLast? hlast) h

theorem separated_name (path : String) : Separated [] (Ancestor.ofPath path).name := by
  intro c hc
  dsimp only [Ancestor.ofPath] at hc
  exact separated_escape [] path c (mem_of_mem_displayName hc)

/-! ### Contexts as the agent builds them -/

section

variable {ssh : Ssh} {table : Processes} {entry : KeyEntry} {peer : Option PeerInfo}
  {bindings : List SessionBinding}

theorem requester_of_new {requester : Requester}
    (h : (ConfirmContext.new ssh table entry peer bindings).requester = some requester) :
    peer ≠ none ∧ Separated [] requester.process ∧
      ∀ a ∈ requester.origin, ∃ pid path, table.path pid = some path ∧ a = .ofPath path := by
  obtain ⟨pid, hpid, hof⟩ := Option.bind_eq_some_iff.mp h
  obtain ⟨path, -, rfl⟩ := Option.map_eq_some_iff.mp hof
  refine ⟨?_, separated_escape [] path, ofPath_of_mem_originChain (by simp)⟩
  rintro rfl
  cases hpid

theorem requester_of_no_peer (h : (ConfirmContext.new ssh table entry peer bindings).peer = none) :
    (ConfirmContext.new ssh table entry peer bindings).requester = none := by
  obtain rfl : peer = none := h
  rfl

theorem separated_requestedBy :
    Separated [] (requestedBy (.new ssh table entry peer bindings)) := by
  have hpid : Separated [] " (pid " := separated_of_plainText (by decide) []
  have hunknown : Separated [] "unknown process (pid " := separated_of_plainText (by decide) []
  have huid : Separated [] ", uid " := separated_of_plainText (by decide) []
  have honly : Separated [] "uid " := separated_of_plainText (by decide) []
  have hclose : Separated [] ")" := separated_of_plainText (by decide) []
  rw [requestedBy]
  split
  · exact separated_of_plainText (by decide) []
  · split
    · exact honly.append (separated_repr [] _)
    · exact ((((hunknown.append (separated_int _)).append huid).append (separated_repr [] _))).append
        hclose
  · next requester _ hrequester =>
    obtain ⟨-, hprocess, -⟩ := requester_of_new hrequester
    exact ((((hprocess.append hpid).append (separated_int _)).append huid).append
      (separated_repr [] _)).append hclose

theorem separated_line : ∀ line ∈ promptLines (.new ssh table entry peer bindings),
    Separated [] (shownLine line) := by
  have harrow : Separated [] arrow := separated_of_plainText (by decide) []
  have hlabel : ∀ {label text : String}, PlainText label → Separated [] text →
      Separated [] (shownLine (label, text)) :=
    fun hlabel htext => (separated_of_plainText hlabel []).append htext
  have hempty : Separated [] "" := separated_of_plainText (by decide) []
  intro line hline
  rcases List.mem_append.mp hline with hline | hline
  · rcases List.mem_append.mp hline with hline | hline
    · simp only [List.mem_cons, List.not_mem_nil, or_false] at hline
      rcases hline with rfl | rfl | rfl | rfl | rfl | rfl
      · exact hlabel (by decide) hempty
      · exact hlabel (by decide) hempty
      · exact hlabel (by decide) (separated_displayBounded _)
      · exact hlabel (by decide) (separated_escape [] _)
      · exact hlabel (by decide) (separated_escape [] _)
      · exact hlabel (by decide) separated_requestedBy
    · split_ifs at hline with horigin
      · cases hline
      · rw [List.mem_singleton.mp hline]
        refine hlabel (by decide) (harrow.intercalate fun text htext => ?_)
        obtain ⟨a, ha, rfl⟩ := List.mem_map.mp htext
        cases hrequester : (ConfirmContext.new ssh table entry peer bindings).requester with
        | none => simp [ConfirmContext.origin, hrequester] at ha
        | some requester =>
          obtain ⟨-, -, horigin⟩ := requester_of_new hrequester
          obtain ⟨_, path, -, rfl⟩ := horigin a (by simpa [ConfirmContext.origin, hrequester] using ha)
          exact separated_name path
  · rcases List.mem_append.mp hline with hline | hline
    · split_ifs at hline
      · rcases List.mem_cons.mp hline with rfl | hline
        · exact hlabel (by decide) hempty
        · rw [List.mem_singleton.mp hline]
          exact hlabel (by decide +kernel) hempty
      · cases hline
    · split_ifs at hline
      · cases hline
      · rw [List.mem_singleton.mp hline]
        refine hlabel (by decide) (harrow.intercalate fun text htext => ?_)
        obtain ⟨bind, -, rfl⟩ := List.mem_map.mp htext
        exact separated_describeHop bind

end

/-! ### What the user reads -/

def promptLabels (started bound forwarding : Bool) : List String :=
  ["SSH signature request", "", "Key: ", "Fingerprint: ", "LastPass item: ", "Requested by: "] ++
  (if started then ["Started from: "] else []) ++
  (if forwarding then ["", warningLine] else []) ++ if bound then ["SSH session: "] else []

/-- The prompt is the agent's own lines. The names in it change none of the labels, each
host's name is that of a hop, and the warning has nothing of a hop before it. -/
structure LinesKept (ctx : ConfirmContext) : Prop where
  lines : (describeRequest ctx).toList.splitOn '\n' =
    (promptLines ctx).map fun line => line.1.toList ++ line.2.toList
  labels : (promptLines ctx).map Prod.fst = promptLabels (!ctx.origin.isEmpty)
    (!ctx.bindings.isEmpty) (ctx.bindings.any SessionBinding.isForwarding)
  name : Bounded ctx.keyName (displayBounded ctx.keyName)
  hops : ∀ bind ∈ ctx.bindings, ∃ shown,
    Bounded (bind.hostName.getD bind.hostFingerprint) shown ∧ describeHop bind =
      shown ++ if bind.isForwarding then " (forwarding the agent onward)" else ""
  warned : ctx.bindings.any SessionBinding.isForwarding = true →
    promptLines ctx = promptHead { ctx with bindings := [] } ++ [("", ""), (warningLine, ""),
      ("SSH session: ", arrow.intercalate (ctx.bindings.map describeHop))]

theorem promptLines_labels (ctx : ConfirmContext) : (promptLines ctx).map Prod.fst =
    promptLabels (!ctx.origin.isEmpty) (!ctx.bindings.isEmpty)
      (ctx.bindings.any SessionBinding.isForwarding) := by
  have hhead : (promptHead ctx).map Prod.fst = ["SSH signature request", "", "Key: ",
      "Fingerprint: ", "LastPass item: ", "Requested by: "] ++
        if !ctx.origin.isEmpty then ["Started from: "] else [] := by
    by_cases horigin : ctx.origin.isEmpty = true
    · simp [promptHead, horigin]
    · simp [promptHead, horigin]
  have htail : (promptTail ctx.bindings).map Prod.fst =
      (if ctx.bindings.any SessionBinding.isForwarding then ["", warningLine] else []) ++
        if !ctx.bindings.isEmpty then ["SSH session: "] else [] := by
    by_cases hforwarding : ctx.bindings.any SessionBinding.isForwarding = true
    · by_cases hbound : ctx.bindings.isEmpty = true
      · simp [promptTail, hforwarding, hbound]
      · simp [promptTail, hforwarding, hbound]
    · by_cases hbound : ctx.bindings.isEmpty = true
      · simp [promptTail, hforwarding, hbound]
      · simp [promptTail, hforwarding, hbound]
  rw [promptLines, List.map_append, hhead, htail, promptLabels]
  simp only [List.append_assoc]

theorem linesKept_new (ssh : Ssh) (table : Processes) (entry : KeyEntry)
    (peer : Option PeerInfo) (bindings : List SessionBinding) :
    LinesKept (.new ssh table entry peer bindings) := by
  constructor
  · have hnewline : "\n".toList = ['\n'] := by decide
    have hshown : ∀ line : String × String,
        (String.toList ∘ shownLine) line = line.1.toList ++ line.2.toList :=
      fun line => String.toList_append
    have hline : ∀ line ∈ (promptLines (.new ssh table entry peer bindings)).map
        (String.toList ∘ shownLine), '\n' ∉ line := by
      intro line hmem
      obtain ⟨pair, hpair, rfl⟩ := List.mem_map.mp hmem
      exact (separated_line pair hpair).notMem plain_separators.1 List.not_mem_nil
    rw [describeRequest_lines requester_of_no_peer, String.toList_intercalate, hnewline,
      List.map_map, List.splitOn_intercalate '\n' hline (by simp [promptLines, promptHead])]
    exact List.map_congr_left fun line _ => hshown line
  · exact promptLines_labels _
  · exact bounded_displayBounded _
  · intro bind _
    refine ⟨_, bounded_displayBounded _, ?_⟩
    rw [describeHop]
    split_ifs
    · rfl
    · exact (String.append_empty ..).symm
  · intro (hforwarding : bindings.any SessionBinding.isForwarding = true)
    have hbound : ¬ bindings.isEmpty = true := by
      intro hempty
      rw [List.isEmpty_iff.mp hempty] at hforwarding
      cases hforwarding
    have htail : promptTail bindings = [("", ""), (warningLine, ""),
        ("SSH session: ", arrow.intercalate (bindings.map describeHop))] := by
      rw [promptTail, if_pos hforwarding, if_neg hbound]
      rfl
    exact congrArg _ htail

/-- Every context that can be built, and so every one the user is asked about in a run. -/
structure PromptsKept (env : Env) : Prop where
  built : ∀ table entry peer bindings, LinesKept (.new env.ssh table entry peer bindings)
  asked : ∀ P : Pool runtime, env.Reachable P → ∀ t ctx, P.stage.Did t (.began (.confirm ctx)) →
    LinesKept ctx

/-- No name adds a line to a prompt, takes one away or makes one up. -/
theorem prompts_keep_lines (env : Env) : PromptsKept env where
  built := linesKept_new env.ssh
  asked := by
    intro P hP t ctx hasked
    obtain ⟨x, hx, rfl, hxa⟩ := hasked
    obtain ⟨newer, older, hs⟩ := List.append_of_mem hx
    obtain ⟨s₀, -, rfl, -, -, ⟨-, -, job, -, table, names, rfl⟩, -⟩ :=
      began_of_cut (Env.lawful hP) hs hxa
    exact linesKept_new env.ssh table job.entry job.peer _

end LastpassSshAgent
