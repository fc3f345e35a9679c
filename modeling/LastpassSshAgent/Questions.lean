import LastpassSshAgent.Escapes
import LastpassSshAgent.Framing.Delimited
import LastpassSshAgent.System

/-!
# What an approval question tells apart

A question joins escaped texts with control characters, which escaping leaves in none of
them. Everything the prompt shows but the pid is read back off it, provided no path and no
host name is empty. Executables are told apart as far as their escaped paths are: a path
with an escape written out in it asks the question of the one with the character.
-/

namespace LastpassSshAgent

/-! ### Reading a question back -/

def PlainText (text : String) : Prop := ∀ c ∈ text.toList, Plain c

instance (text : String) : Decidable (PlainText text) := List.decidableBAll Plain text.toList

/-- Shown as it is, but for the separators given. -/
def Separated (seps : List Char) (text : String) : Prop := ∀ c ∈ text.toList, Plain c ∨ c ∈ seps

theorem separated_escape (seps : List Char) (text : String) :
    Separated seps (escapeForDisplay text) := fun _ hc => .inl (plain_of_mem_escapeForDisplay hc)

theorem separated_repr (seps : List Char) (n : ℕ) : Separated seps (toString n) := by
  intro c hc
  rw [Nat.toString_eq_repr, Nat.toList_repr] at hc
  have hdigit : c.isDigit := Nat.isDigit_of_mem_toDigits (by decide) (by decide) hc
  have hrange : 48 ≤ c.toNat ∧ c.toNat ≤ 57 := by
    simpa [Char.isDigit, UInt32.le_iff_toNat_le] using hdigit
  refine .inl ⟨?_, ?_⟩
  · simp only [isControl, Bool.or_eq_false_iff, Bool.and_eq_false_iff, decide_eq_false_iff_not]
    omega
  · simp only [isInvisible, List.any_eq_false, Bool.and_eq_true, decide_eq_true_eq, not_and]
    intro range hrange' hle
    have hlow : ∀ range ∈ INVISIBLE_RANGES, 57 < range.1 := by decide
    have := hlow range hrange'
    omega

theorem separated_of_singleton {seps : List Char} {text : String} {c : Char}
    (htext : text.toList = [c]) (hc : c ∈ seps) : Separated seps text := by
  intro d hd
  rw [htext, List.mem_singleton] at hd
  exact .inr (hd ▸ hc)

theorem Separated.notMem {seps : List Char} {text : String} (h : Separated seps text) {c : Char}
    (hplain : ¬ Plain c) (hc : c ∉ seps) : c ∉ text.toList :=
  fun hmem => (h c hmem).elim hplain hc

theorem Separated.append {seps : List Char} {a b : String} (ha : Separated seps a)
    (hb : Separated seps b) : Separated seps (a ++ b) := by
  intro c hc
  rw [String.toList_append, List.mem_append] at hc
  exact hc.elim (ha c) (hb c)

theorem Separated.intercalate {seps : List Char} {sep : String} (hsep : Separated seps sep)
    {texts : List String} (h : ∀ text ∈ texts, Separated seps text) :
    Separated seps (sep.intercalate texts) := by
  induction texts with
  | nil =>
    intro c hc
    simp at hc
  | cons text texts ih =>
    obtain ⟨htext, htexts⟩ := List.forall_mem_cons.mp h
    cases texts with
    | nil => simpa using htext
    | cons next texts =>
      rw [String.intercalate_cons_cons]
      exact (htext.append hsep).append (ih htexts)

theorem plain_separators : ¬ Plain '\n' ∧ ¬ Plain '\x1f' ∧ ¬ Plain '\x1e' := by decide

theorem intercalate_SEP_inj {xs ys : List String} (hx : ∀ x ∈ xs, x ≠ "" ∧ '\x1f' ∉ x.toList)
    (hy : ∀ y ∈ ys, y ≠ "" ∧ '\x1f' ∉ y.toList) (h : SEP.intercalate xs = SEP.intercalate ys) :
    xs = ys := by
  have hwords : ∀ {zs : List String}, (∀ z ∈ zs, z ≠ "" ∧ '\x1f' ∉ z.toList) →
      ∀ w ∈ zs.map String.toList, w ≠ [] ∧ '\x1f' ∉ w := by
    intro zs hz w hw
    obtain ⟨z, hmem, rfl⟩ := List.mem_map.mp hw
    exact ⟨fun hnil => (hz z hmem).1 (String.toList_eq_nil_iff.mp hnil), (hz z hmem).2⟩
  have hlists : ['\x1f'].intercalate (xs.map String.toList) =
      ['\x1f'].intercalate (ys.map String.toList) := by
    have hsep : SEP.toList = ['\x1f'] := by decide
    have hchars := congrArg String.toList h
    rwa [String.toList_intercalate, String.toList_intercalate, hsep] at hchars
  exact List.map_injective_iff.mpr (fun a b => String.toList_inj.mp)
    (Framing.intercalate_inj_of_ne_nil (hwords hx) (hwords hy) hlists)

def askedHop (bind : SessionBinding) : String × Option String × Bool :=
  (escapeForDisplay bind.hostFingerprint, bind.hostName.map escapeForDisplay, bind.isForwarding)

def hopFields (bind : SessionBinding) : List String :=
  [escapeForDisplay bind.hostFingerprint, (bind.hostName.map escapeForDisplay).getD "",
    if bind.isForwarding then "forwarding" else ""]

theorem questionHop_eq (bind : SessionBinding) :
    questionHop bind = FIELD.intercalate (hopFields bind) := by
  simp [questionHop, hopFields, String.intercalate_cons_cons, String.append_assoc]

theorem toList_questionHop (bind : SessionBinding) :
    (questionHop bind).toList = ['\x1e'].intercalate ((hopFields bind).map String.toList) := by
  have hfield : FIELD.toList = ['\x1e'] := by decide
  rw [questionHop_eq, String.toList_intercalate, hfield]

theorem separated_hopFields (bind : SessionBinding) :
    ∀ text ∈ hopFields bind, Separated [] text := by
  have hempty : Separated [] "" := nofun
  have hname : Separated [] ((bind.hostName.map escapeForDisplay).getD "") := by
    cases bind.hostName with
    | none => exact hempty
    | some name => exact separated_escape _ _
  have hflag : Separated [] (if bind.isForwarding then "forwarding" else "") := by
    have hplain : PlainText "forwarding" := by decide
    split_ifs
    · exact fun c hc => .inl (hplain c hc)
    · exact hempty
  intro text htext
  rw [hopFields, List.mem_cons, List.mem_cons, List.mem_singleton] at htext
  rcases htext with rfl | rfl | rfl
  · exact separated_escape _ _
  · exact hname
  · exact hflag

theorem questionHop_inj {a b : SessionBinding} (ha : a.hostName ≠ some "")
    (hb : b.hostName ≠ some "") (h : questionHop a = questionHop b) : askedHop a = askedHop b := by
  have hfields : ∀ bind, ∀ word ∈ (hopFields bind).map String.toList, '\x1e' ∉ word := by
    intro bind word hword
    obtain ⟨text, htext, rfl⟩ := List.mem_map.mp hword
    exact (separated_hopFields bind text htext).notMem plain_separators.2.2 List.not_mem_nil
  have hlists := congrArg String.toList h
  rw [toList_questionHop, toList_questionHop] at hlists
  have hwords := Framing.intercalate_inj (List.cons_ne_nil _ _) (List.cons_ne_nil _ _) (hfields a)
    (hfields b) hlists
  simp only [List.map_cons, List.map_nil, List.cons.injEq, String.toList_inj, and_true] at hwords
  obtain ⟨hfingerprint, hname, hforwarding⟩ := hwords
  have hnames : a.hostName.map escapeForDisplay = b.hostName.map escapeForDisplay := by
    cases hna : a.hostName with
    | none =>
      cases hnb : b.hostName with
      | none => rfl
      | some name =>
        rw [hna, hnb] at hname
        exact absurd hname.symm (escapeForDisplay_ne_empty fun h => hb (hnb.trans (congrArg some h)))
    | some name =>
      cases hnb : b.hostName with
      | none =>
        rw [hna, hnb] at hname
        exact absurd hname (escapeForDisplay_ne_empty fun h => ha (hna.trans (congrArg some h)))
      | some name' =>
        rw [hna, hnb] at hname
        exact congrArg some hname
  have hflag : a.isForwarding = b.isForwarding := by
    revert hforwarding
    cases a.isForwarding <;> cases b.isForwarding <;> decide
  rw [askedHop, askedHop, hfingerprint, hnames, hflag]

theorem questionHop_ne_empty (bind : SessionBinding) : questionHop bind ≠ "" := by
  intro hempty
  have hfield : '\x1e' ∈ (questionHop bind).toList := by
    have hchar : FIELD.toList = ['\x1e'] := by decide
    simp [questionHop, hchar]
  rw [hempty] at hfield
  cases hfield

theorem separated_questionHop (bind : SessionBinding) : Separated ['\x1e'] (questionHop bind) := by
  have hfield : Separated ['\x1e'] FIELD := separated_of_singleton (by decide) List.mem_cons_self
  rw [questionHop_eq]
  refine hfield.intercalate fun text htext c hc => .inl ?_
  exact (separated_hopFields bind text htext c hc).resolve_right List.not_mem_nil

theorem questionHops_inj {xs ys : List SessionBinding} (hx : ∀ bind ∈ xs, bind.hostName ≠ some "")
    (hy : ∀ bind ∈ ys, bind.hostName ≠ some "")
    (h : SEP.intercalate (xs.map questionHop) = SEP.intercalate (ys.map questionHop)) :
    xs.map askedHop = ys.map askedHop := by
  have htexts : ∀ zs : List SessionBinding, ∀ text ∈ zs.map questionHop,
      text ≠ "" ∧ '\x1f' ∉ text.toList := by
    intro zs text htext
    obtain ⟨bind, -, rfl⟩ := List.mem_map.mp htext
    exact ⟨questionHop_ne_empty bind,
      (separated_questionHop bind).notMem plain_separators.2.1 (by decide)⟩
  have hhops := intercalate_SEP_inj (htexts xs) (htexts ys) h
  clear h
  induction xs generalizing ys with
  | nil => rw [List.map_eq_nil_iff.mp hhops.symm]
  | cons a xs ih =>
    cases ys with
    | nil => cases hhops
    | cons b ys =>
      obtain ⟨hhop, hrest⟩ := List.cons.inj hhops
      obtain ⟨ha, hxs⟩ := List.forall_mem_cons.mp hx
      obtain ⟨hb, hys⟩ := List.forall_mem_cons.mp hy
      rw [List.map_cons, List.map_cons, questionHop_inj ha hb hhop, ih hxs hys hrest]

def questionPieces (ctx : ConfirmContext) (peer : PeerInfo) (requester : Requester) : List String :=
  [escapeForDisplay ctx.itemId, escapeForDisplay ctx.fingerprint, escapeForDisplay ctx.keyName,
    requester.process, toString peer.uid, SEP.intercalate (requester.origin.map Ancestor.path),
    SEP.intercalate (ctx.bindings.map questionHop)]

theorem approvalQuestion_eq {ctx : ConfirmContext} {peer : PeerInfo} {requester : Requester}
    (hpeer : ctx.peer = some peer) (hrequester : ctx.requester = some requester) :
    ∃ q, approvalQuestion ctx = some q ∧ q.toList = Framing.terminated '\n'
      ((questionPieces ctx peer requester).map String.toList) := by
  refine ⟨String.join ((questionPieces ctx peer requester).map fun piece => piece ++ "\n"), ?_, ?_⟩
  · rw [approvalQuestion, hpeer, hrequester]
    rfl
  · rw [String.toList_join, Framing.terminated, List.flatMap_map, List.flatMap_map]
    simp [questionPieces]

theorem asked_of_question {ctx : ConfirmContext} {q : String} (h : approvalQuestion ctx = some q) :
    ∃ peer requester, ctx.peer = some peer ∧ ctx.requester = some requester ∧
      q.toList = Framing.terminated '\n'
        ((questionPieces ctx peer requester).map String.toList) := by
  cases hpeer : ctx.peer with
  | none => simp [approvalQuestion, hpeer] at h
  | some peer =>
    cases hrequester : ctx.requester with
    | none => simp [approvalQuestion, hpeer, hrequester] at h
    | some requester =>
      obtain ⟨q', hq', hlist⟩ := approvalQuestion_eq hpeer hrequester
      obtain rfl : q = q' := Option.some.inj (h.symm.trans hq')
      exact ⟨peer, requester, rfl, rfl, hlist⟩

/-! ### The ancestors -/

/-- An ancestor as the chain names it for its executable's path. -/
def Ancestor.ofPath (path : String) : Ancestor :=
  ⟨displayName (escapeForDisplay path), escapeForDisplay path⟩

def Ancestor.Named (ancestor : Ancestor) : Prop := ∃ path ≠ "", ancestor = .ofPath path

theorem ofPath_of_mem_originChain {table : Processes} {depth : ℕ} {current : ℤ}
    {ancestors : List Ancestor}
    (h : ∀ a ∈ ancestors, ∃ pid path, table.path pid = some path ∧ a = .ofPath path) :
    ∀ a ∈ originChainFrom table depth current ancestors,
      ∃ pid path, table.path pid = some path ∧ a = .ofPath path := by
  induction depth generalizing current ancestors with
  | zero => exact h
  | succ depth ih =>
    rw [originChainFrom]
    split
    · exact h
    · rename_i next _
      split
      · exact h
      · rename_i path hpath
        dsimp only
        split_ifs
        · exact ih h
        · refine ih fun a ha => ?_
          rcases List.mem_append.mp ha with ha | ha
          · exact h a ha
          · exact ⟨next, path, hpath, List.mem_singleton.mp ha⟩

theorem named_of_mem_originChain {table : Processes} (htable : ∀ pid, table.path pid ≠ some "")
    {depth : ℕ} {current : ℤ} : ∀ a ∈ originChainFrom table depth current [], a.Named := by
  intro a ha
  obtain ⟨pid, path, hpath, rfl⟩ := ofPath_of_mem_originChain (by simp) a ha
  exact ⟨path, fun hempty => htable pid (hpath.trans (congrArg some hempty)), rfl⟩

theorem origin_eq_of_paths {xs ys : List Ancestor} (hx : ∀ a ∈ xs, a.Named) (hy : ∀ a ∈ ys, a.Named)
    (h : xs.map Ancestor.path = ys.map Ancestor.path) : xs = ys := by
  have hname : ∀ a : Ancestor, a.Named → a = ⟨displayName a.path, a.path⟩ := by
    rintro a ⟨path, -, rfl⟩
    rfl
  have hnames : ∀ zs : List Ancestor, (∀ a ∈ zs, a.Named) →
      (zs.map Ancestor.path).map (fun path => ⟨displayName path, path⟩) = zs := by
    intro zs hz
    rw [List.map_map]
    exact (List.map_congr_left fun a ha => (hname a (hz a ha)).symm).trans (List.map_id zs)
  rw [← hnames xs hx, h, hnames ys hy]

/-! ### Equal questions -/

/-- A context as the agent builds it. -/
def ConfirmContext.Built (ctx : ConfirmContext) : Prop :=
  ∃ ssh table entry peer bindings, ctx = .new ssh table entry peer bindings ∧
    (∃ name, entry.name = escapeForDisplay name) ∧ (∀ pid, table.path pid ≠ some "") ∧
    ∀ bind ∈ bindings, bind.hostName ≠ some ""

/-- What a question determines of the context it is asked for. -/
structure Recovered (c₁ c₂ : ConfirmContext) : Prop where
  item : escapeForDisplay c₁.itemId = escapeForDisplay c₂.itemId
  fingerprint : escapeForDisplay c₁.fingerprint = escapeForDisplay c₂.fingerprint
  keyName : c₁.keyName = c₂.keyName
  requester : c₁.requester = c₂.requester
  uid : c₁.peer.map PeerInfo.uid = c₂.peer.map PeerInfo.uid
  hops : c₁.bindings.map askedHop = c₂.bindings.map askedHop

theorem separated_pieces {ctx : ConfirmContext} {peer : PeerInfo} {requester : Requester}
    (hprocess : Separated [] requester.process) (horigin : ∀ a ∈ requester.origin, a.Named) :
    ∀ piece ∈ questionPieces ctx peer requester, '\n' ∉ piece.toList := by
  have hsep : Separated ['\x1f', '\x1e'] SEP :=
    separated_of_singleton (by decide) List.mem_cons_self
  have hwiden : ∀ {text}, Separated [] text → Separated ['\x1f', '\x1e'] text :=
    fun h c hc => .inl ((h c hc).resolve_right List.not_mem_nil)
  have hpaths : ∀ text ∈ requester.origin.map Ancestor.path, Separated ['\x1f', '\x1e'] text := by
    intro text htext
    obtain ⟨a, ha, rfl⟩ := List.mem_map.mp htext
    obtain ⟨path, -, rfl⟩ := horigin a ha
    exact separated_escape _ _
  have hhops : ∀ text ∈ ctx.bindings.map questionHop, Separated ['\x1f', '\x1e'] text := by
    intro text htext
    obtain ⟨bind, -, rfl⟩ := List.mem_map.mp htext
    exact fun c hc => (separated_questionHop bind c hc).imp_right (List.mem_cons_of_mem _)
  have hpieces : ∀ piece ∈ questionPieces ctx peer requester,
      Separated ['\x1f', '\x1e'] piece := by
    simp only [questionPieces, List.forall_mem_cons, List.not_mem_nil, IsEmpty.forall_iff,
      implies_true, and_true]
    exact ⟨separated_escape _ _, separated_escape _ _, separated_escape _ _, hwiden hprocess,
      separated_repr _ _, hsep.intercalate hpaths, hsep.intercalate hhops⟩
  exact fun piece hpiece => (hpieces piece hpiece).notMem plain_separators.1 (by decide)

/-- A hop as the prompt shows it, from what the question says of it. -/
def shownHop : String × Option String × Bool → String
  | (fingerprint, name, isForwarding) =>
    let hop := displayBounded (name.getD fingerprint)
    if isForwarding then hop ++ " (forwarding the agent onward)" else hop

theorem displayBounded_congr {a b : String} (h : escapeForDisplay a = escapeForDisplay b) :
    displayBounded a = displayBounded b := by
  rw [displayBounded, displayBounded, h]

theorem describeHop_eq (bind : SessionBinding) : describeHop bind = shownHop (askedHop bind) := by
  have hname : displayBounded (bind.hostName.getD bind.hostFingerprint) = displayBounded
      ((bind.hostName.map escapeForDisplay).getD (escapeForDisplay bind.hostFingerprint)) := by
    refine displayBounded_congr ?_
    cases bind.hostName with
    | none => exact (escapeForDisplay_idem _).symm
    | some name => exact (escapeForDisplay_idem _).symm
  rw [describeHop, hname]
  rfl

theorem describeBindings_congr {a b : List SessionBinding} (h : a.map askedHop = b.map askedHop) :
    describeBindings a = describeBindings b := by
  have hshown : a.map describeHop = b.map describeHop := by
    have heq : ∀ bindings : List SessionBinding,
        bindings.map describeHop = (bindings.map askedHop).map shownHop := by
      intro bindings
      rw [List.map_map]
      exact List.map_congr_left fun bind _ => describeHop_eq bind
    rw [heq, heq, h]
  have hany : a.any SessionBinding.isForwarding = b.any SessionBinding.isForwarding := by
    have heq : ∀ bindings : List SessionBinding, bindings.any SessionBinding.isForwarding =
        (bindings.map askedHop).any (·.2.2) := by
      intro bindings
      rw [List.any_map]
      rfl
    rw [heq, heq, h]
  have hempty : a.isEmpty = b.isEmpty := by
    rw [← List.isEmpty_map (f := askedHop), h, List.isEmpty_map]
  rw [describeBindings, describeBindings, hshown, hany, hempty]

/-- The prompt up to the pid, and from there on. -/
def beforePid (ctx : ConfirmContext) (requester : Requester) : String :=
  "SSH signature request\n\nKey: " ++ displayBounded ctx.keyName ++
    "\nFingerprint: " ++ escapeForDisplay ctx.fingerprint ++
    "\nLastPass item: " ++ escapeForDisplay ctx.itemId ++
    "\nRequested by: " ++ requester.process ++ " (pid "

def afterPid (ctx : ConfirmContext) (uid : ℕ) (requester : Requester) : String :=
  ", uid " ++ toString uid ++ ")" ++
    (if requester.origin.isEmpty then ""
    else "\nStarted from: " ++ arrow.intercalate (requester.origin.map Ancestor.name)) ++
    describeBindings ctx.bindings

theorem describeRequest_eq {ctx : ConfirmContext} {peer : PeerInfo} {requester : Requester} {pid : ℤ}
    (hpeer : ctx.peer = some peer) (hrequester : ctx.requester = some requester)
    (hpid : peer.pid = some pid) : describeRequest ctx =
      beforePid ctx requester ++ toString pid ++ afterPid ctx peer.uid requester := by
  have hline : describeRequester ctx = requester.process ++ " (pid " ++ toString pid ++ ", uid " ++
      toString peer.uid ++ ")" ++ (if requester.origin.isEmpty then ""
        else "\nStarted from: " ++ arrow.intercalate (requester.origin.map Ancestor.name)) := by
    have hself : ∀ text : String, toString text = text := fun _ => rfl
    simp only [describeRequester, hpeer, hrequester, hpid, Option.getD_some, hself]
    split_ifs
    · rw [String.append_empty]
    · rw [String.append_assoc]
  delta describeRequest beforePid afterPid
  simp only [hline, String.append_assoc]

theorem ConfirmContext.Built.requester {ctx : ConfirmContext} {peer : PeerInfo}
    {requester : Requester} (h : ctx.Built) (hpeer : ctx.peer = some peer)
    (hrequester : ctx.requester = some requester) :
    (∃ pid, peer.pid = some pid) ∧ Separated [] requester.process ∧
      ∀ a ∈ requester.origin, a.Named := by
  obtain ⟨ssh, table, entry, peer', bindings, rfl, -, htable, -⟩ := h
  obtain rfl : peer' = some peer := hpeer
  have hof : peer.pid.bind (Requester.of table) = some requester := hrequester
  obtain ⟨pid, hpid, hof⟩ := Option.bind_eq_some_iff.mp hof
  obtain ⟨path, -, rfl⟩ := Option.map_eq_some_iff.mp hof
  exact ⟨⟨pid, hpid⟩, separated_escape _ _, named_of_mem_originChain htable⟩

theorem ConfirmContext.Built.recovered {c₁ c₂ : ConfirmContext} {q : String} (h₁ : c₁.Built)
    (h₂ : c₂.Built) (hq₁ : approvalQuestion c₁ = some q) (hq₂ : approvalQuestion c₂ = some q) :
    Recovered c₁ c₂ := by
  obtain ⟨peer₁, requester₁, hpeer₁, hrequester₁, hlist₁⟩ := asked_of_question hq₁
  obtain ⟨peer₂, requester₂, hpeer₂, hrequester₂, hlist₂⟩ := asked_of_question hq₂
  obtain ⟨-, hprocess₁, horigin₁⟩ := h₁.requester hpeer₁ hrequester₁
  obtain ⟨-, hprocess₂, horigin₂⟩ := h₂.requester hpeer₂ hrequester₂
  have hwords : ∀ pieces : List String, (∀ piece ∈ pieces, '\n' ∉ piece.toList) →
      ∀ word ∈ pieces.map String.toList, '\n' ∉ word := by
    intro pieces hpieces word hword
    obtain ⟨piece, hmem, rfl⟩ := List.mem_map.mp hword
    exact hpieces piece hmem
  have hpieces : questionPieces c₁ peer₁ requester₁ = questionPieces c₂ peer₂ requester₂ :=
    List.map_injective_iff.mpr (fun a b => String.toList_inj.mp)
      (Framing.terminated_inj (hwords _ (separated_pieces hprocess₁ horigin₁))
        (hwords _ (separated_pieces hprocess₂ horigin₂)) (hlist₁.symm.trans hlist₂))
  simp only [questionPieces, List.cons.injEq, and_true] at hpieces
  obtain ⟨hitem, hfingerprint, hname, hprocess, huid, hpaths, hhops⟩ := hpieces
  have horigin : requester₁.origin = requester₂.origin := by
    have hnamed : ∀ requester : Requester, (∀ a ∈ requester.origin, a.Named) →
        ∀ text ∈ requester.origin.map Ancestor.path, text ≠ "" ∧ '\x1f' ∉ text.toList := by
      intro requester horigin text htext
      obtain ⟨a, ha, rfl⟩ := List.mem_map.mp htext
      obtain ⟨path, hpath, rfl⟩ := horigin a ha
      exact ⟨escapeForDisplay_ne_empty hpath,
        (separated_escape [] path).notMem plain_separators.2.1 List.not_mem_nil⟩
    exact origin_eq_of_paths horigin₁ horigin₂
      (intercalate_SEP_inj (hnamed _ horigin₁) (hnamed _ horigin₂) hpaths)
  have hrequester : requester₁ = requester₂ := by
    cases requester₁
    cases requester₂
    rw [Requester.mk.injEq]
    exact ⟨hprocess, horigin⟩
  obtain ⟨ssh, table, entry, peer, bindings, rfl, ⟨name, hentry⟩, -, hbindings⟩ := h₁
  obtain ⟨ssh', table', entry', peer', bindings', rfl, ⟨name', hentry'⟩, -, hbindings'⟩ := h₂
  have hnames : entry.name = entry'.name := by
    have hshown : escapeForDisplay entry.name = escapeForDisplay entry'.name := hname
    rwa [hentry, hentry', escapeForDisplay_idem, escapeForDisplay_idem, ← hentry, ← hentry'] at hshown
  exact {
    item := hitem
    fingerprint := hfingerprint
    keyName := hnames
    requester := hrequester₁.trans ((congrArg some hrequester).trans hrequester₂.symm)
    uid := by rw [hpeer₁, hpeer₂, Option.map_some, Option.map_some, toString_inj huid]
    hops := questionHops_inj hbindings hbindings' hhops }

theorem equal_questions_equal_prompts {c₁ c₂ : ConfirmContext} {q : String} (h₁ : c₁.Built)
    (h₂ : c₂.Built) (hq₁ : approvalQuestion c₁ = some q) (hq₂ : approvalQuestion c₂ = some q) :
    Recovered c₁ c₂ ∧
      (PlainText c₁.itemId → PlainText c₂.itemId → c₁.itemId = c₂.itemId) ∧
      (PlainText c₁.fingerprint → PlainText c₂.fingerprint → c₁.fingerprint = c₂.fingerprint) ∧
      ∃ before after, ∀ c, c = c₁ ∨ c = c₂ → ∃ peer pid, c.peer = some peer ∧
        peer.pid = some pid ∧ describeRequest c = before ++ toString pid ++ after := by
  have hrecovered := h₁.recovered h₂ hq₁ hq₂
  obtain ⟨peer₁, requester, hpeer₁, hrequester, -⟩ := asked_of_question hq₁
  obtain ⟨peer₂, requester₂, hpeer₂, hrequester₂, -⟩ := asked_of_question hq₂
  obtain ⟨⟨pid₁, hpid₁⟩, -⟩ := h₁.requester hpeer₁ hrequester
  obtain ⟨⟨pid₂, hpid₂⟩, -⟩ := h₂.requester hpeer₂ hrequester₂
  obtain rfl : requester = requester₂ := Option.some.inj
    (hrequester.symm.trans (hrecovered.requester.trans hrequester₂))
  have huid : peer₁.uid = peer₂.uid := by
    simpa [hpeer₁, hpeer₂] using hrecovered.uid
  have hbefore : beforePid c₁ requester = beforePid c₂ requester := by
    delta beforePid
    rw [hrecovered.keyName, hrecovered.fingerprint, hrecovered.item]
  have hafter : afterPid c₁ peer₁.uid requester = afterPid c₂ peer₂.uid requester := by
    rw [afterPid, afterPid, huid, describeBindings_congr hrecovered.hops]
  have hplain : ∀ {a b}, escapeForDisplay a = escapeForDisplay b → PlainText a → PlainText b →
      a = b := by
    intro a b h ha hb
    rwa [escapeForDisplay_of_plain ha, escapeForDisplay_of_plain hb] at h
  refine ⟨hrecovered, hplain hrecovered.item, hplain hrecovered.fingerprint,
    beforePid c₁ requester, afterPid c₁ peer₁.uid requester, ?_⟩
  rintro c (rfl | rfl)
  · exact ⟨peer₁, pid₁, hpeer₁, hpid₁, describeRequest_eq hpeer₁ hrequester hpid₁⟩
  · rw [hbefore, hafter]
    exact ⟨peer₂, pid₂, hpeer₂, hpid₂, describeRequest_eq hpeer₂ hrequester₂ hpid₂⟩

namespace Sample

def table : Processes where
  path pid := if pid = 7 ∨ pid = 8 then some "/usr/bin/ssh" else if pid = 5 then some "/bin/zsh" else none
  parent pid := if pid = 7 ∨ pid = 8 then some 5 else none

def hop : SessionBinding := ⟨"SHA256:host", some "build.example", true, [1], [2]⟩

def entry : KeyEntry := ⟨"11", "plain", plain, true, .prompt⟩

def asked (pid : ℤ) : ConfirmContext := .new ssh table entry (some ⟨some pid, 501⟩) [hop]

theorem built_asked (pid : ℤ) : (asked pid).Built := by
  refine ⟨ssh, table, entry, some ⟨some pid, 501⟩, [hop], rfl, ⟨"plain", by decide⟩, fun other => ?_,
    by decide⟩
  simp only [table]
  split_ifs <;> decide

end Sample

theorem equal_questions_equal_prompts_later : ∃ q, approvalQuestion (Sample.asked 7) = some q ∧
    approvalQuestion (Sample.asked 8) = some q ∧ Sample.asked 7 ≠ Sample.asked 8 ∧
    ∃ before after, ∀ c, c = Sample.asked 7 ∨ c = Sample.asked 8 → ∃ peer pid, c.peer = some peer ∧
      peer.pid = some pid ∧ describeRequest c = before ++ toString pid ++ after := by
  obtain ⟨q, hq⟩ : ∃ q, approvalQuestion (Sample.asked 7) = some q :=
    Option.isSome_iff_exists.mp (by decide)
  have hlater : approvalQuestion (Sample.asked 8) = some q := hq
  exact ⟨q, hq, hlater, by decide, (equal_questions_equal_prompts (Sample.built_asked 7)
    (Sample.built_asked 8) hq hlater).2.2.2⟩

/-! ### Two executables -/

section

variable {ssh : Ssh} {table table' : Processes} {entry : KeyEntry} {bindings : List SessionBinding}
  {pid : ℤ} {uid : ℕ} {p q : String}

def questionFor (ssh : Ssh) (table : Processes) (entry : KeyEntry) (pid : ℤ) (uid : ℕ)
    (bindings : List SessionBinding) : Option String :=
  approvalQuestion (.new ssh table entry (some ⟨some pid, uid⟩) bindings)

theorem questionFor_eq_iff (h : table.path pid = some p) (h' : table'.path pid = some q) :
    questionFor ssh table entry pid uid bindings = questionFor ssh table' entry pid uid bindings ↔
      Framing.terminated '\n' ([escapeForDisplay p, toString uid,
        SEP.intercalate ((originChainFrom table MAX_ORIGIN_DEPTH pid []).map Ancestor.path)].map
          String.toList) =
      Framing.terminated '\n' ([escapeForDisplay q, toString uid,
        SEP.intercalate ((originChainFrom table' MAX_ORIGIN_DEPTH pid []).map Ancestor.path)].map
          String.toList) := by
  have hrequester : ∀ {table : Processes} {path : String}, table.path pid = some path →
      (ConfirmContext.new ssh table entry (some ⟨some pid, uid⟩) bindings).requester =
        some ⟨escapeForDisplay path, originChainFrom table MAX_ORIGIN_DEPTH pid []⟩ := by
    intro table path hpath
    rw [ConfirmContext.new, Option.bind_some, Option.bind_some, Requester.of, hpath, Option.map_some]
  obtain ⟨question, hquestion, hlist⟩ := approvalQuestion_eq rfl (hrequester h)
  obtain ⟨question', hquestion', hlist'⟩ := approvalQuestion_eq rfl (hrequester h')
  rw [questionFor, questionFor, hquestion, hquestion', Option.some_inj, ← String.toList_inj, hlist,
    hlist']
  simp only [questionPieces, ConfirmContext.new, Framing.terminated, List.map_cons,
    List.flatMap_cons, List.append_cancel_left_eq]
  simp only [← List.append_assoc, List.append_cancel_right_eq]

/-- Where in a context a path stands, and what stands around it. -/
inductive Place where
  | own (origin : List Ancestor)
  | ancestor (requester : String) (front back : List Ancestor)

/-- The executable at `path` stands there for process `pid`. -/
def Place.Holds (table : Processes) (pid : ℤ) (path : String) : Place → Prop
  | .own origin =>
    table.path pid = some path ∧ originChainFrom table MAX_ORIGIN_DEPTH pid [] = origin
  | .ancestor requester front back => table.path pid = some requester ∧
    originChainFrom table MAX_ORIGIN_DEPTH pid [] = front ++ .ofPath path :: back

theorem escape_eq_of_question {place : Place} (h : place.Holds table pid p)
    (h' : place.Holds table' pid q) :
    questionFor ssh table entry pid uid bindings = questionFor ssh table' entry pid uid bindings ↔
      escapeForDisplay p = escapeForDisplay q := by
  cases place with
  | own origin =>
    obtain ⟨hpath, horigin⟩ := h
    obtain ⟨hpath', horigin'⟩ := h'
    rw [questionFor_eq_iff hpath hpath', horigin, horigin']
    simp [Framing.terminated, String.toList_inj]
  | ancestor requester front back =>
    obtain ⟨hown, hchain⟩ := h
    obtain ⟨hown', hchain'⟩ := h'
    rw [questionFor_eq_iff hown hown', hchain, hchain']
    constructor
    · intro heq
      have hwords : SEP.toList.intercalate (front.map (String.toList ∘ Ancestor.path) ++
            (Ancestor.ofPath p).path.toList :: back.map (String.toList ∘ Ancestor.path)) =
          SEP.toList.intercalate (front.map (String.toList ∘ Ancestor.path) ++
            (Ancestor.ofPath q).path.toList :: back.map (String.toList ∘ Ancestor.path)) := by
        simpa [Framing.terminated] using heq
      exact String.toList_inj.mp (Framing.intercalate_cancel hwords)
    · intro heq
      rw [Ancestor.ofPath, Ancestor.ofPath, heq]

/-- Two executables are told apart unless they differ by escapes written out. -/
theorem questions_tell_paths_apart {place : Place} (h : place.Holds table pid p)
    (h' : place.Holds table' pid q) :
    questionFor ssh table entry pid uid bindings ≠ questionFor ssh table' entry pid uid bindings ↔
      ¬ Alike p.toList q.toList := by
  rw [ne_eq, escape_eq_of_question h h', escapeForDisplay_eq_iff]

end

namespace Sample

/-- One process and its parent. -/
def family (path parent : String) : Processes where
  path pid := if pid = 7 then some path else if pid = 5 then some parent else none
  parent pid := if pid = 7 then some 5 else none

end Sample

theorem questions_tell_paths_apart_renamed :
    questionFor Sample.ssh (Sample.family "/usr/bin/ssh" "/bin/zsh") Sample.entry 7 501 [] ≠
      questionFor Sample.ssh (Sample.family "/tmp/ssh" "/bin/zsh") Sample.entry 7 501 [] := by
  have hplace : ∀ path, (Place.own [.ofPath "/bin/zsh"]).Holds (Sample.family path "/bin/zsh") 7 path :=
    fun path => ⟨rfl, rfl⟩
  refine (questions_tell_paths_apart (hplace "/usr/bin/ssh") (hplace "/tmp/ssh")).mpr fun halike => ?_
  exact absurd ((escapeForDisplay_eq_iff _ _).mpr halike) (by decide)

theorem paths_with_one_question :
    "/tmp/a\x1b" ≠ "/tmp/a\\x1b" ∧
    (∃ question,
      questionFor Sample.ssh (Sample.family "/tmp/a\x1b" "/bin/zsh") Sample.entry 7 501 [] =
        some question ∧
      questionFor Sample.ssh (Sample.family "/tmp/a\\x1b" "/bin/zsh") Sample.entry 7 501 [] =
        some question) ∧
    ∃ question,
      questionFor Sample.ssh (Sample.family "/usr/bin/ssh" "/tmp/a\x1b") Sample.entry 7 501 [] =
        some question ∧
      questionFor Sample.ssh (Sample.family "/usr/bin/ssh" "/tmp/a\\x1b") Sample.entry 7 501 [] =
        some question := by
  have hsame : ∀ {a b : Option String}, a.isSome → a = b → ∃ question, a = some question ∧
      b = some question := by
    rintro a b ha rfl
    obtain ⟨question, hquestion⟩ := Option.isSome_iff_exists.mp ha
    exact ⟨question, hquestion, hquestion⟩
  exact ⟨by decide, hsame (by decide) (by decide), hsame (by decide) (by decide)⟩

end LastpassSshAgent
