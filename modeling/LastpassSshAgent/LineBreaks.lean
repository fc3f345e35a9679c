import LastpassSshAgent.PromptLines

/-!
# Which escaped texts stay on one line

Controls and invisible characters are escaped. The line and the paragraph separator are
neither, and are shown as they are, though a renderer breaks the line at either.
-/

namespace LastpassSshAgent

/-- The characters a line must be broken at. -/
def MANDATORY_BREAKS : List Char :=
  ['\n', '\x0b', '\x0c', '\r', '\u0085', '\u2028', '\u2029']

def SEPARATORS : List Char := ['\u2028', '\u2029']

/-- Shown on one line, with nothing that drives the terminal or the renderer. -/
def OnOneLine (text : String) : Prop :=
  ∀ c ∈ text.toList, c ∉ MANDATORY_BREAKS ∧ isControl c = false ∧ isInvisible c = false

@[elab_as_elim]
theorem separator_cases {motive : Char → Prop} {c : Char} (hc : c ∈ SEPARATORS)
    (line : motive '\u2028') (paragraph : motive '\u2029') : motive c := by
  rcases List.mem_pair.mp hc with rfl | rfl
  · exact line
  · exact paragraph

theorem separator_iff {c : Char} : Plain c ∧ c ∈ MANDATORY_BREAKS ↔ c ∈ SEPARATORS := by
  constructor
  · rintro ⟨hplain, hbreak⟩
    simp only [MANDATORY_BREAKS, List.mem_cons, List.not_mem_nil, or_false] at hbreak
    rcases hbreak with rfl | rfl | rfl | rfl | rfl | hseparator
    · exact absurd hplain (by decide)
    · exact absurd hplain (by decide)
    · exact absurd hplain (by decide)
    · exact absurd hplain (by decide)
    · exact absurd hplain (by decide)
    · simpa [SEPARATORS] using hseparator
  · intro hseparator
    exact separator_cases hseparator (by decide) (by decide)

/-! ### Where a separator is shown -/

section

variable {c : Char}

theorem mem_escapeChar_iff (hc : c ∈ SEPARATORS) {d : Char} : c ∈ escapeChar d ↔ c = d := by
  have hhex : ∀ {width n : ℕ}, c ∉ hex width n :=
    notMem_hex (separator_cases hc (by decide) (by decide))
  have hother : c ≠ '\\' ∧ c ≠ 'x' ∧ c ≠ 'u' ∧ c ≠ '\x7b' ∧ c ≠ '\x7d' :=
    separator_cases hc (by decide) (by decide)
  obtain ⟨hplain, -⟩ := separator_iff.mpr hc
  rw [escapeChar]
  by_cases hd : Plain d
  · simp [hd.1, hd.2]
  · have hne : c ≠ d := by
      rintro rfl
      exact hd hplain
    have hescaped : ¬ (!isControl d && !isInvisible d) = true := by
      simpa [Plain] using hd
    rw [if_neg hescaped]
    split_ifs
    · simp [hother, hhex, hne]
    · simp [hother, hhex, hne]

theorem mem_escapeForDisplay_iff (hc : c ∈ SEPARATORS) {text : String} :
    c ∈ (escapeForDisplay text).toList ↔ c ∈ text.toList := by
  rw [escapeForDisplay, String.toList_ofList, List.mem_flatMap]
  simp [mem_escapeChar_iff hc]

end

/-- Escaped text is on one line exactly when neither separator is in it. -/
theorem onOneLine_iff (text : String) :
    OnOneLine (escapeForDisplay text) ↔ ∀ c ∈ SEPARATORS, c ∉ text.toList := by
  constructor
  · intro hline c hc hmem
    exact (hline c ((mem_escapeForDisplay_iff hc).mpr hmem)).1 (separator_iff.mpr hc).2
  · intro hnone c hc
    have hplain := plain_of_mem_escapeForDisplay hc
    refine ⟨fun hbreak => ?_, hplain⟩
    have hseparator := separator_iff.mp ⟨hplain, hbreak⟩
    exact hnone c hseparator ((mem_escapeForDisplay_iff hseparator).mp hc)

/-! ### Where a prompt breaks -/

/-- The character is nowhere in what the prompt shows: not in as much of a name as is
shown of it, and not in the other texts, which are shown whole. -/
structure ConfirmContext.Without (ctx : ConfirmContext) (c : Char) : Prop where
  name : c ∉ (escapeForDisplay ctx.keyName).toList.take MAX_DISPLAY_CHARS
  fingerprint : c ∉ ctx.fingerprint.toList
  item : c ∉ ctx.itemId.toList
  process : ∀ requester ∈ ctx.requester, c ∉ requester.process.toList
  origin : ∀ a ∈ ctx.origin, c ∉ a.name.toList
  hops : ∀ bind ∈ ctx.bindings, c ∉ (escapeForDisplay
    (bind.hostName.getD bind.hostFingerprint)).toList.take MAX_DISPLAY_CHARS

/-- The prompt breaks at the agent's own line feeds, and nowhere else. -/
def OwnBreaks (ctx : ConfirmContext) : Prop :=
  ∀ c ∈ (describeRequest ctx).toList, c ∈ MANDATORY_BREAKS → c = '\n'

section

variable {c : Char}

theorem notMem_toString (hc : c.isDigit = false) (n : ℕ) : c ∉ (toString n).toList := by
  intro hmem
  rw [Nat.toString_eq_repr, Nat.toList_repr] at hmem
  have hdigit : c.isDigit := Nat.isDigit_of_mem_toDigits (by decide) (by decide) hmem
  rw [hc] at hdigit
  cases hdigit

theorem notMem_int (hc : c.isDigit = false) (hminus : c ≠ '-') (n : ℤ) :
    c ∉ (toString n).toList := by
  cases n with
  | ofNat m => exact notMem_toString hc m
  | negSucc m =>
    have hdigits := notMem_toString hc (m + 1)
    have hneg : (toString (Int.negSucc m)).toList = '-' :: (toString (m + 1)).toList := by
      rw [show toString (Int.negSucc m) = "-" ++ toString (m + 1) from rfl, String.toList_append]
      rfl
    rw [hneg, List.mem_cons, not_or]
    exact ⟨hminus, hdigits⟩

theorem mem_intercalate_iff {sep : String} (hsep : c ∉ sep.toList) {texts : List String} :
    c ∈ (sep.intercalate texts).toList ↔ ∃ text ∈ texts, c ∈ text.toList := by
  induction texts with
  | nil => simp
  | cons text texts ih =>
    cases texts with
    | nil => simp
    | cons next texts =>
      rw [String.intercalate_cons_cons, String.toList_append, String.toList_append, List.mem_append,
        List.mem_append, ih]
      simp [hsep]

theorem mem_displayBounded_iff (hc : c ∈ SEPARATORS) {text : String} :
    c ∈ (displayBounded text).toList ↔
      c ∈ (escapeForDisplay text).toList.take MAX_DISPLAY_CHARS := by
  have hmarker : c ∉ "… [".toList ∧ c ∉ " more]".toList :=
    separator_cases hc (by decide) (by decide)
  have hdigit : c.isDigit = false := separator_cases hc (by decide) (by decide)
  rw [displayBounded]
  by_cases hfits : (escapeForDisplay text).toList.length ≤ MAX_DISPLAY_CHARS
  · rw [if_pos hfits, String.toList_ofList, List.take_of_length_le hfits]
  · have hcount := notMem_toString hdigit
      ((escapeForDisplay text).toList.drop MAX_DISPLAY_CHARS).length
    rw [if_neg hfits, String.toList_append, String.toList_ofList, List.mem_append,
      or_iff_left]
    simp only [String.toList_append, List.mem_append, not_or]
    exact ⟨⟨hmarker.1, hcount⟩, hmarker.2⟩

theorem notMem_shownLine {label text : String} (hlabel : c ∉ label.toList) :
    c ∉ (shownLine (label, text)).toList ↔ c ∉ text.toList := by
  rw [shownLine, String.toList_append, List.mem_append, not_or]
  exact and_iff_right hlabel

theorem notMem_names (hc : c ∈ SEPARATORS) {names : List String} :
    c ∉ (arrow.intercalate names).toList ↔ ∀ name ∈ names, c ∉ name.toList := by
  have harrow : c ∉ arrow.toList := separator_cases hc (by decide) (by decide)
  rw [mem_intercalate_iff harrow]
  simp

theorem notMem_describeHop (hc : c ∈ SEPARATORS) (bind : SessionBinding) :
    c ∉ (describeHop bind).toList ↔ c ∉ (escapeForDisplay
      (bind.hostName.getD bind.hostFingerprint)).toList.take MAX_DISPLAY_CHARS := by
  have hsuffix : c ∉ " (forwarding the agent onward)".toList :=
    separator_cases hc (by decide) (by decide)
  rw [describeHop, ← mem_displayBounded_iff hc]
  split_ifs
  · rw [String.toList_append, List.mem_append, or_iff_left hsuffix]
  · rfl

theorem notMem_requestedBy (hc : c ∈ SEPARATORS) {ctx : ConfirmContext}
    (h : ctx.peer = none → ctx.requester = none) : c ∉ (requestedBy ctx).toList ↔
      ∀ requester ∈ ctx.requester, c ∉ requester.process.toList := by
  have hdigit : c.isDigit = false := separator_cases hc (by decide) (by decide)
  have hminus : c ≠ '-' := separator_cases hc (by decide) (by decide)
  have hwords : c ∉ "unknown".toList ∧ c ∉ "uid ".toList ∧ c ∉ ", uid ".toList ∧ c ∉ ")".toList ∧
      c ∉ " (pid ".toList ∧ c ∉ "unknown process (pid ".toList :=
    separator_cases hc (by decide) (by decide)
  obtain ⟨hunknown, huid, hthen, hclose, hpid, hprocess⟩ := hwords
  have hnat := notMem_toString hdigit
  have hint := notMem_int hdigit hminus
  have happend : ∀ {a b : String}, c ∉ b.toList → (c ∉ (a ++ b).toList ↔ c ∉ a.toList) := by
    intro a b hb
    rw [String.toList_append, List.mem_append, or_iff_left hb]
  rw [requestedBy]
  cases hpeer : ctx.peer with
  | none => exact iff_of_true hunknown (by simp [h hpeer])
  | some peer =>
    cases hrequester : ctx.requester with
    | none =>
      refine iff_of_true ?_ (by simp)
      dsimp only
      split
      · exact (happend (hnat peer.uid)).mpr huid
      · next pid _ =>
        exact (happend hclose).mpr ((happend (hnat peer.uid)).mpr ((happend hthen).mpr
          ((happend (hint pid)).mpr hprocess)))
    | some requester =>
      have hline := (happend hclose).trans ((happend (hnat peer.uid)).trans ((happend hthen).trans
        ((happend (hint (peer.pid.getD 0))).trans (@happend requester.process _ hpid))))
      exact hline.trans (by simp)

theorem notMem_promptHead (hc : c ∈ SEPARATORS) {ctx : ConfirmContext}
    (h : ctx.peer = none → ctx.requester = none) :
    (∀ line ∈ promptHead ctx, c ∉ (shownLine line).toList) ↔
      c ∉ (escapeForDisplay ctx.keyName).toList.take MAX_DISPLAY_CHARS ∧
      c ∉ ctx.fingerprint.toList ∧ c ∉ ctx.itemId.toList ∧
      (∀ requester ∈ ctx.requester, c ∉ requester.process.toList) ∧
      ∀ a ∈ ctx.origin, c ∉ a.name.toList := by
  have hlabels : c ∉ "Key: ".toList ∧ c ∉ "Fingerprint: ".toList ∧ c ∉ "LastPass item: ".toList ∧
      c ∉ "Requested by: ".toList ∧ c ∉ "Started from: ".toList ∧
      c ∉ "SSH signature request".toList ∧ c ∉ "".toList :=
    separator_cases hc (by decide) (by decide)
  obtain ⟨hkey, hfingerprint, hitem, hrequested, hstarted, hhead, hnone⟩ := hlabels
  have horigin : (∀ line ∈ (if ctx.origin.isEmpty then []
      else [("Started from: ", arrow.intercalate (ctx.origin.map Ancestor.name))]),
        c ∉ (shownLine line).toList) ↔ ∀ a ∈ ctx.origin, c ∉ a.name.toList := by
    by_cases hempty : ctx.origin.isEmpty = true
    · rw [if_pos hempty, List.isEmpty_iff.mp hempty]
      simp
    · rw [if_neg hempty, List.forall_mem_singleton, notMem_shownLine hstarted, notMem_names hc]
      simp
  have hheader : c ∉ (shownLine ("SSH signature request", "")).toList :=
    (notMem_shownLine hhead).mpr hnone
  have hblank : c ∉ (shownLine ("", "")).toList := (notMem_shownLine hnone).mpr hnone
  rw [promptHead, List.forall_mem_append, horigin]
  simp only [List.forall_mem_cons]
  rw [notMem_shownLine hkey, notMem_shownLine hfingerprint, notMem_shownLine hitem,
    notMem_shownLine hrequested, mem_displayBounded_iff hc, mem_escapeForDisplay_iff hc,
    mem_escapeForDisplay_iff hc, notMem_requestedBy hc h]
  simp [hheader, hblank, and_assoc]

theorem notMem_promptTail (hc : c ∈ SEPARATORS) (bindings : List SessionBinding) :
    (∀ line ∈ promptTail bindings, c ∉ (shownLine line).toList) ↔ ∀ bind ∈ bindings,
      c ∉ (escapeForDisplay (bind.hostName.getD bind.hostFingerprint)).toList.take
        MAX_DISPLAY_CHARS := by
  have hwarning : ∀ line ∈ (if bindings.any SessionBinding.isForwarding then
      [("", ""), (warningLine, "")] else []), c ∉ (shownLine line).toList := by
    have hlabels : c ∉ "".toList ∧ c ∉ warningLine.toList :=
      separator_cases hc (by decide +kernel) (by decide +kernel)
    split_ifs
    · rw [List.forall_mem_cons, List.forall_mem_singleton, notMem_shownLine hlabels.1,
        notMem_shownLine hlabels.2]
      simp
    · simp
  rw [promptTail, List.forall_mem_append, and_iff_right hwarning]
  by_cases hbound : bindings.isEmpty = true
  · rw [if_pos hbound, List.isEmpty_iff.mp hbound]
    simp
  · have hlabel : c ∉ "SSH session: ".toList := separator_cases hc (by decide) (by decide)
    rw [if_neg hbound, List.forall_mem_singleton, notMem_shownLine hlabel, notMem_names hc]
    simp [notMem_describeHop hc]

end

theorem notMem_describeRequest {c : Char} (hc : c ∈ SEPARATORS) {ctx : ConfirmContext}
    (h : ctx.peer = none → ctx.requester = none) :
    c ∉ (describeRequest ctx).toList ↔ ctx.Without c := by
  have hnewline : c ∉ "\n".toList := separator_cases hc (by decide) (by decide)
  have hlines : c ∉ (describeRequest ctx).toList ↔
      ∀ line ∈ promptLines ctx, c ∉ (shownLine line).toList := by
    rw [describeRequest_lines h, mem_intercalate_iff hnewline]
    simp
  rw [hlines, promptLines, List.forall_mem_append, notMem_promptHead hc h, notMem_promptTail hc]
  constructor
  · rintro ⟨⟨hname, hfingerprint, hitem, hprocess, horigin⟩, hhops⟩
    exact ⟨hname, hfingerprint, hitem, hprocess, horigin, hhops⟩
  · rintro ⟨hname, hfingerprint, hitem, hprocess, horigin, hhops⟩
    exact ⟨⟨hname, hfingerprint, hitem, hprocess, horigin⟩, hhops⟩

theorem ownBreaks_iff (ssh : Ssh) (table : Processes) (entry : KeyEntry) (peer : Option PeerInfo)
    (bindings : List SessionBinding) : OwnBreaks (.new ssh table entry peer bindings) ↔
      ∀ c ∈ SEPARATORS, (ConfirmContext.new ssh table entry peer bindings).Without c := by
  constructor
  · intro hown c hc
    refine (notMem_describeRequest hc requester_of_no_peer).mp fun hmem => ?_
    have hnewline := hown c hmem (separator_iff.mpr hc).2
    have hne : c ≠ '\n' := separator_cases hc (by decide) (by decide)
    exact hne hnewline
  · intro hwithout c hc hbreak
    by_contra hne
    have hplain : Plain c := by
      have hnewline : c ∉ "\n".toList := by simpa using hne
      rw [describeRequest_lines requester_of_no_peer, mem_intercalate_iff hnewline] at hc
      obtain ⟨line, hline, hmem⟩ := hc
      obtain ⟨pair, hpair, rfl⟩ := List.mem_map.mp hline
      exact (separated_line pair hpair c hmem).resolve_right List.not_mem_nil
    have hseparator := separator_iff.mp ⟨hplain, hbreak⟩
    exact (notMem_describeRequest hseparator requester_of_no_peer).mpr (hwithout c hseparator) hc

/-- Escaped text is on one line exactly when no separator is in it, and a prompt keeps to
its own lines exactly when none is in what it shows. -/
theorem escaped_on_one_line_iff (text : String) (ssh : Ssh) (table : Processes)
    (entry : KeyEntry) (peer : Option PeerInfo) (bindings : List SessionBinding) :
    (OnOneLine (escapeForDisplay text) ↔ ∀ c ∈ SEPARATORS, c ∉ text.toList) ∧
    (OwnBreaks (.new ssh table entry peer bindings) ↔
      ∀ c ∈ SEPARATORS, (ConfirmContext.new ssh table entry peer bindings).Without c) :=
  ⟨onOneLine_iff text, ownBreaks_iff ssh table entry peer bindings⟩

/-- A key whose name goes on as if it were the next line of the prompt. -/
def brokenKey : KeyEntry :=
  ⟨"11", "deploy\u2028Requested by: /usr/bin/git (pid 7, uid 501)", Sample.plain, true, .prompt⟩

theorem separator_is_shown : ¬ OnOneLine (escapeForDisplay brokenKey.name) ∧
    ¬ OwnBreaks (.new Sample.ssh Sample.table brokenKey (some ⟨some 7, 501⟩) []) := by
  have hseparator : '\u2028' ∈ SEPARATORS := by decide
  constructor
  · intro hline
    exact (onOneLine_iff _).mp hline _ hseparator (by decide)
  · intro hown
    exact ((ownBreaks_iff _ _ _ _ _).mp hown _ hseparator).name (by decide +kernel)

end LastpassSshAgent
