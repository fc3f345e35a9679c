import LastpassSshAgent.Escapes
import LastpassSshAgent.LpassCli

/-!
# What a failed call is taken to mean

The messages of `lpass` are looked for in its diagnostics as they are logged: trimmed,
escaped and cut. Trimming and escaping neither lose a message nor make one up; the cut
loses one that does not end within it.
-/

namespace LastpassSshAgent

/-! ### Messages in escaped text -/

/-- What messages begin with stands in no escape. -/
def Opens (c : Char) : Prop := Plain c ∧ c ≠ '\\' ∧ ∀ d, ¬ Plain d → c ∉ escapeChar d

theorem opens_of {c : Char} (hplain : Plain c) (hmarks : c ∉ ['\\', 'x', 'u', '{', '}'])
    (hhex : ∀ d < 16, c ≠ d.digitChar) : Opens c := by
  refine ⟨hplain, fun h => hmarks (h ▸ List.mem_cons_self), fun d hd hmem => ?_⟩
  rw [escapeChar_eq hd] at hmem
  have hdigits : ∀ {width n}, c ∉ hex width n := notMem_hex hhex
  split_ifs at hmem <;> simp_all

theorem split_of_escape {c : Char} (hc : Opens c) {message : List Char}
    (hmessage : '\\' ∉ c :: message) {text before after : List Char}
    (h : text.flatMap escapeChar = before ++ (c :: message) ++ after) :
    ∃ front back, text = front ++ (c :: message) ++ back ∧ front.flatMap escapeChar = before ∧
      back.flatMap escapeChar = after := by
  induction text generalizing before with
  | nil => simp at h
  | cons d text ih =>
    rw [List.flatMap_cons, List.append_assoc] at h
    rcases List.append_eq_append_iff.mp h with ⟨rest, rfl, hrest⟩ | ⟨rest, hescape, hrest⟩
    · rw [← List.append_assoc] at hrest
      obtain ⟨front, back, rfl, rfl, hback⟩ := ih hrest
      exact ⟨d :: front, back, rfl, rfl, hback⟩
    · cases rest with
      | nil =>
        rw [List.append_nil] at hescape
        have hnext : text.flatMap escapeChar = [] ++ (c :: message) ++ after := by
          rw [List.nil_append, hrest, List.nil_append]
        obtain ⟨front, back, rfl, hfront, hback⟩ := ih hnext
        refine ⟨d :: front, back, rfl, ?_, hback⟩
        rw [List.flatMap_cons, hfront, List.append_nil, hescape]
      | cons x rest =>
        obtain rfl : c = x := (List.cons.inj hrest).1
        have hmem : c ∈ escapeChar d := hescape ▸ List.mem_append_right before List.mem_cons_self
        by_cases hd : Plain d
        · -- a character shown as it is: nothing stands before the message
          rw [escapeChar_of_plain hd] at hescape
          obtain rfl : before = [] := by
            have hlength := congrArg List.length hescape
            simp only [List.length_cons, List.length_nil, List.length_append] at hlength
            exact List.eq_nil_of_length_eq_zero (by omega)
          rw [List.nil_append, ← List.flatMap_cons] at h
          obtain ⟨back, heq, hback⟩ := peel hmessage h
          exact ⟨[], back, heq, rfl, hback⟩
        · exact absurd hmem (hc.2.2 d hd)

/-! ### What is kept of a text -/

def Said (ends : List Char → Prop) (text : List Char) : Prop :=
  ∃ front back, text = front ++ back ∧ ends front

def DIAGNOSTIC_CHARS : ℕ := 300

/-- What ends in the way given is in the text, and takes no more of it than is kept: the
text up to there, without what is trimmed, escaped. -/
def SaidInTime (ends : List Char → Prop) (text : List Char) : Prop :=
  ∃ front back, text.dropWhile isWhitespace = front ++ back ∧ ends front ∧
    (front.flatMap escapeChar).length ≤ DIAGNOSTIC_CHARS

theorem SaidInTime.said {ends : List Char → Prop} {text : List Char} (h : SaidInTime ends text)
    (happend : ∀ before front, ends front → ends (before ++ front)) : Said ends text := by
  obtain ⟨front, back, heq, hends, -⟩ := h
  refine ⟨text.takeWhile isWhitespace ++ front, back, ?_, happend _ _ hends⟩
  rw [List.append_assoc, ← heq, List.takeWhile_append_dropWhile]

/-- Neither escaping nor trimming makes an end, or loses one. -/
structure Survives (ends : List Char → Prop) : Prop where
  closes : ∀ {front}, ends front → ∃ before c, front = before ++ [c] ∧ isWhitespace c = false
  escaped : ∀ {front}, ends front → ends (front.flatMap escapeChar)
  raw : ∀ {text before after}, text.flatMap escapeChar = before ++ after → ends before →
    ∃ front back, text = front ++ back ∧ front.flatMap escapeChar = before ∧ ends front
  later : ∀ before {front}, ends front → ends (before ++ front)

theorem trimEnd_append (back : List Char) {front : List Char} (h : ∃ before c,
    front = before ++ [c] ∧ isWhitespace c = false) :
    ∃ back', trimEnd (front ++ back) = front ++ back' := by
  obtain ⟨before, c, rfl, hc⟩ := h
  have hkept : (before ++ [c]).reverse.dropWhile isWhitespace = (before ++ [c]).reverse := by
    rw [List.reverse_append, List.reverse_singleton, List.singleton_append,
      List.dropWhile_cons_of_neg (by simp [hc])]
  rw [trimEnd, List.reverse_append, List.dropWhile_append]
  split_ifs
  · exact ⟨[], by rw [hkept, List.reverse_reverse, List.append_nil]⟩
  · exact ⟨(back.reverse.dropWhile isWhitespace).reverse, by
      rw [List.reverse_append, List.reverse_reverse]⟩

/-- What the logged diagnostics say is what is kept of the text. -/
theorem said_diagnostics {ends : List Char → Prop} (h : Survives ends) {stderr : Bytes}
    (hlength : stderr.length ≤ MAX_FIELD_BYTES) :
    Said ends (CmdOutput.diagnostics stderr).toList ↔ SaidInTime ends (fromUtf8Lossy stderr).toList := by
  have htext : (CmdOutput.diagnostics stderr).toList =
      ((trimEnd ((fromUtf8Lossy stderr).toList.dropWhile isWhitespace)).flatMap escapeChar).take
        DIAGNOSTIC_CHARS := by
    simp [CmdOutput.diagnostics, List.take_of_length_le hlength, escapeForDisplay, trim,
      DIAGNOSTIC_CHARS]
  rw [htext]
  constructor
  · rintro ⟨before, after, hkept, hends⟩
    set trimmed := trimEnd ((fromUtf8Lossy stderr).toList.dropWhile isWhitespace) with htrimmed
    have hsplit : trimmed.flatMap escapeChar =
        before ++ (after ++ (trimmed.flatMap escapeChar).drop DIAGNOSTIC_CHARS) := by
      rw [← List.append_assoc, ← hkept, List.take_append_drop]
    obtain ⟨front, back, heq, hfront, hraw⟩ := h.raw hsplit hends
    obtain ⟨trailing, htrailing⟩ :=
      trimEnd_isPrefix ((fromUtf8Lossy stderr).toList.dropWhile isWhitespace)
    refine ⟨front, back ++ trailing, ?_, hraw, ?_⟩
    · rw [← htrailing, ← htrimmed, heq, List.append_assoc]
    · have hlength := congrArg List.length hkept
      rw [List.length_append] at hlength
      have htake := List.length_take_le DIAGNOSTIC_CHARS (trimmed.flatMap escapeChar)
      rw [hfront]
      omega
  · rintro ⟨front, back, heq, hends, hfits⟩
    obtain ⟨back', htrim⟩ := trimEnd_append back (h.closes hends)
    refine ⟨front.flatMap escapeChar, (back'.flatMap escapeChar).take
      (DIAGNOSTIC_CHARS - (front.flatMap escapeChar).length), ?_, h.escaped hends⟩
    rw [heq, htrim, List.flatMap_append, List.take_append, List.take_of_length_le hfits]

/-! ### Looking for messages -/

theorem splitOnce_append (pattern before after : List Char) : ∃ before' after',
    splitOnce pattern (before ++ pattern ++ after) = some (before', after') ∧ after <:+ after' := by
  induction before with
  | nil =>
    cases htext : pattern ++ after with
    | nil =>
      obtain ⟨rfl, rfl⟩ := List.append_eq_nil_iff.mp htext
      exact ⟨[], [], rfl, List.suffix_rfl⟩
    | cons c text =>
      have hprefix : pattern.isPrefixOf (c :: text) = true :=
        List.isPrefixOf_iff_prefix.mpr ⟨after, htext⟩
      refine ⟨[], (c :: text).drop pattern.length, ?_, ?_⟩
      · rw [List.nil_append, htext, splitOnce, if_pos hprefix]
      · rw [← htext, List.drop_left]
  | cons c before ih =>
    rw [List.cons_append, List.cons_append, splitOnce]
    split_ifs with hprefix
    · refine ⟨[], _, rfl, ?_⟩
      have hlength : pattern.length ≤ (c :: (before ++ pattern)).length := by
        simp only [List.length_cons, List.length_append]
        omega
      rw [← List.cons_append, List.drop_append_of_le_length hlength]
      exact List.suffix_append _ _
    · obtain ⟨before', after', hsplit, hsuffix⟩ := ih
      exact ⟨c :: before', after', by rw [hsplit, Option.map_some], hsuffix⟩

theorem containsText_iff_said (text message : String) :
    containsText text message = true ↔ Said (fun front => message.toList <:+ front) text.toList := by
  have hpart : containsText text message = true ↔ message.toList <:+: text.toList := by
    simp only [containsText, decide_eq_true_eq]
  rw [hpart]
  constructor
  · rintro ⟨before, after, heq⟩
    exact ⟨before ++ message.toList, after, heq.symm, ⟨before, rfl⟩⟩
  · rintro ⟨front, after, heq, ⟨before, rfl⟩⟩
    exact ⟨before, after, heq.symm⟩

/-- Where the missing field is named, and the quotes around its name closed. -/
def NamesField (front : List Char) : Prop :=
  ∃ before name, front = before ++ "Could not find specified field '".toList ++ name ++ ['\'']

theorem missingField_iff_said (out : CmdOutput) :
    out.missingField.isSome = true ↔ Said NamesField out.stderr.toList := by
  rw [CmdOutput.missingField, Option.isSome_iff_exists]
  constructor
  · rintro ⟨field, h⟩
    obtain ⟨⟨before, rest⟩, hopening, h⟩ := Option.bind_eq_some_iff.mp h
    obtain ⟨⟨name, after⟩, hclosing, -⟩ := Option.bind_eq_some_iff.mp h
    refine ⟨_, after, ?_, before, name, rfl⟩
    rw [append_of_splitOnce hopening, append_of_splitOnce hclosing]
    simp only [List.append_assoc]
  · rintro ⟨front, after, heq, before, name, rfl⟩
    obtain ⟨before', rest, hopening, hsuffix⟩ := splitOnce_append
      "Could not find specified field '".toList before (name ++ ['\''] ++ after)
    obtain ⟨between, rfl⟩ := hsuffix
    obtain ⟨field, after', hclosing, -⟩ := splitOnce_append ['\''] (between ++ name) after
    refine ⟨String.ofList field, ?_⟩
    have htext : out.stderr.toList = before ++ "Could not find specified field '".toList ++
        (name ++ ['\''] ++ after) := by
      rw [heq]
      simp only [List.append_assoc]
    have hrest : between ++ (name ++ ['\''] ++ after) = between ++ name ++ ['\''] ++ after := by
      simp only [List.append_assoc]
    rw [htext, hopening, hrest, Option.bind_eq_bind, Option.bind_some]
    exact Option.bind_eq_some_iff.mpr ⟨_, hclosing, rfl⟩

/-! ### The messages -/

/-- A message of `lpass`: shown as it is, with nothing to trim at its end. -/
structure IsMessage (message : List Char) : Prop where
  opens : ∃ c rest, message = c :: rest ∧ Opens c
  plain : ∀ c ∈ message, Plain c ∧ c ≠ '\\'
  closes : ∃ before c, message = before ++ [c] ∧ isWhitespace c = false

theorem IsMessage.split {message text before after : List Char} (hm : IsMessage message)
    (h : text.flatMap escapeChar = before ++ message ++ after) :
    ∃ front back, text = front ++ message ++ back ∧ front.flatMap escapeChar = before ∧
      back.flatMap escapeChar = after := by
  obtain ⟨c, rest, rfl, hc⟩ := hm.opens
  exact split_of_escape hc (fun hmem => (hm.plain _ hmem).2 rfl) h

theorem IsMessage.flatMap {message : List Char} (hm : IsMessage message) :
    message.flatMap escapeChar = message :=
  flatMap_escapeChar_of_plain fun c hc => (hm.plain c hc).1

theorem survives_message {message : List Char} (hm : IsMessage message) :
    Survives fun front => message <:+ front where
  closes := by
    rintro front ⟨before, rfl⟩
    obtain ⟨rest, c, heq, hc⟩ := hm.closes
    exact ⟨before ++ rest, c, by rw [heq, List.append_assoc], hc⟩
  escaped := by
    rintro front ⟨before, rfl⟩
    exact ⟨before.flatMap escapeChar, by rw [List.flatMap_append, hm.flatMap]⟩
  raw := by
    rintro text front after heq ⟨before, rfl⟩
    obtain ⟨front, back, rfl, hfront, -⟩ := hm.split heq
    refine ⟨front ++ message, back, rfl, ?_, ⟨front, rfl⟩⟩
    rw [List.flatMap_append, hfront, hm.flatMap]
  later := by
    rintro earlier front ⟨before, rfl⟩
    exact ⟨earlier ++ before, List.append_assoc _ _ _⟩

theorem survives_pair {opening closing : List Char} (ho : IsMessage opening)
    (hc : IsMessage closing) :
    Survives fun front => ∃ before name, front = before ++ opening ++ name ++ closing where
  closes := by
    rintro front ⟨before, name, rfl⟩
    obtain ⟨rest, c, heq, hclose⟩ := hc.closes
    exact ⟨before ++ opening ++ name ++ rest, c, by rw [heq]; simp only [List.append_assoc], hclose⟩
  escaped := by
    rintro front ⟨before, name, rfl⟩
    refine ⟨before.flatMap escapeChar, name.flatMap escapeChar, ?_⟩
    simp only [List.flatMap_append, ho.flatMap, hc.flatMap]
  raw := by
    rintro text front after heq ⟨before, name, rfl⟩
    have hopening : text.flatMap escapeChar = before ++ opening ++ (name ++ closing ++ after) := by
      rw [heq]
      simp only [List.append_assoc]
    obtain ⟨front, back, rfl, hfront, hback⟩ := ho.split hopening
    obtain ⟨middle, back, rfl, hmiddle, -⟩ := hc.split hback
    refine ⟨front ++ opening ++ middle ++ closing, back, by simp only [List.append_assoc], ?_,
      front, middle, rfl⟩
    simp only [List.flatMap_append, hfront, hmiddle, ho.flatMap, hc.flatMap]
  later := by
    rintro earlier front ⟨before, name, rfl⟩
    exact ⟨earlier ++ before, name, by simp only [List.append_assoc]⟩

/-! ### What is made of a failure -/

inductive ErrorKind where
  | notLoggedIn | locked | wrongMasterPassword | noMasterPassword | itemNotFound | fieldNotFound
  | timeout | fieldTooLarge | spawn | commandFailed
  deriving DecidableEq, Repr

def LpassError.kind : LpassError → ErrorKind
  | .notLoggedIn => .notLoggedIn
  | .locked => .locked
  | .wrongMasterPassword => .wrongMasterPassword
  | .noMasterPassword _ => .noMasterPassword
  | .itemNotFound _ => .itemNotFound
  | .fieldNotFound _ _ => .fieldNotFound
  | .timeout _ => .timeout
  | .fieldTooLarge _ => .fieldTooLarge
  | .spawn _ => .spawn
  | .commandFailed _ _ => .commandFailed

structure SameDiagnosis (a b : CmdOutput) (item : Option String) : Prop where
  locked : a.locked = b.locked
  rejected : a.wasRejected = b.wasRejected
  kind : (a.classify item).kind = (b.classify item).kind

def CmdOutput.withWhole (out : CmdOutput) (stderr : Bytes) : CmdOutput :=
  { out with stderr := fromUtf8Lossy stderr }

/-- A message ends in the text, or ends within what is kept of it. -/
abbrev Ends (message : String) (front : List Char) : Prop := message.toList <:+ front

def isMessage (message : List Char) : Bool :=
  message.head?.any (fun c => decide (c ∉ ['\\', 'x', 'u', '{', '}'] ∧ ∀ d < 16, c ≠ d.digitChar)) &&
    message.all (fun c => decide (Plain c ∧ c ≠ '\\')) &&
    message.getLast?.any (fun c => !isWhitespace c)

theorem isMessage_of {message : List Char} (h : isMessage message = true) : IsMessage message := by
  simp only [isMessage, Bool.and_eq_true, List.all_eq_true, decide_eq_true_eq, Option.any_eq_true,
    Bool.not_eq_true'] at h
  obtain ⟨⟨⟨c, hhead, hmarks, hhex⟩, hplain⟩, last, hlast, hspace⟩ := h
  refine ⟨?_, hplain, ?_⟩
  · obtain ⟨rest, rfl⟩ := List.head?_eq_some_iff.mp hhead
    exact ⟨c, rest, rfl, opens_of (hplain c List.mem_cons_self).1 hmarks hhex⟩
  · obtain ⟨before, rfl⟩ := List.getLast?_eq_some_iff.mp hlast
    exact ⟨before, last, rfl, hspace⟩

theorem survives_ends (message : String) (h : message ∈ [CmdOutput.rejectedText,
    CmdOutput.noKeyText, "Not logged in", "Could not find session",
    "Could not find specified account"]) : Survives (Ends message) := by
  have hmessages : ∀ message ∈ [CmdOutput.rejectedText, CmdOutput.noKeyText, "Not logged in",
      "Could not find session", "Could not find specified account"],
      isMessage message.toList = true := by decide
  exact survives_message (isMessage_of (hmessages message h))

theorem survives_namesField : Survives NamesField :=
  survives_pair (isMessage_of (by decide)) (isMessage_of (by decide))

def kindOf (rejected noKey fed notLoggedIn aboutItem account field : Bool) : ErrorKind :=
  if rejected then .wrongMasterPassword
  else if noKey then if fed then .notLoggedIn else .locked
  else if notLoggedIn then .notLoggedIn
  else if aboutItem then
    if account then .itemNotFound else if field then .fieldNotFound else .commandFailed
  else .commandFailed

theorem kind_classifyItem (out : CmdOutput) (item : Option String) :
    (out.classifyItem item).kind =
      if item.isSome then
        if containsText out.stderr "Could not find specified account" then .itemNotFound
        else if out.missingField.isSome then .fieldNotFound else .commandFailed
      else .commandFailed := by
  cases item with
  | none => rfl
  | some id =>
    rw [CmdOutput.classifyItem, Option.isSome_some, if_pos rfl]
    split_ifs with haccount hfield
    · rfl
    · obtain ⟨field, hfield⟩ := Option.isSome_iff_exists.mp hfield
      rw [hfield]
      rfl
    · rw [Option.not_isSome_iff_eq_none.mp hfield]
      rfl

theorem kind_classify (out : CmdOutput) (item : Option String) : (out.classify item).kind =
    kindOf out.wasRejected (containsText out.stderr CmdOutput.noKeyText) out.fed
      (containsText out.stderr "Not logged in" || containsText out.stderr "Could not find session")
      item.isSome (containsText out.stderr "Could not find specified account")
      out.missingField.isSome := by
  rw [CmdOutput.classify, kindOf, ← kind_classifyItem]
  split_ifs <;> rfl

section

variable {rejected noKey noKey' fed none none' aboutItem account account' field field' : Bool}

/-- Fewer messages make the same kind exactly when those that decide are among them. -/
theorem kindOf_eq_iff (hnoKey : noKey = true → noKey' = true) (hnone : none = true → none' = true)
    (haccount : account = true → account' = true) (hfield : field = true → field' = true) :
    kindOf rejected noKey fed none aboutItem account field =
        kindOf rejected noKey' fed none' aboutItem account' field' ↔
      (rejected = false → noKey' = true → noKey = true ∨ fed = true ∧ none = true) ∧
      (rejected = false → noKey' = false → none' = true → none = true) ∧
      (rejected = false → noKey' = false → none' = false → aboutItem = true →
        (account' = true → account = true) ∧ (account' = false → field' = true → field = true)) := by
  grind [kindOf]

end

section

variable {fed : Bool} {code : Option ℤ} {stdout stderr : Bytes} {maxBytes : ℕ} {out : CmdOutput}

/-- What decides the diagnosis of a call about `item` is said early enough to be kept. -/
structure DecidedInTime (fed : Bool) (code : Option ℤ) (item : Option String) (text : List Char) :
    Prop where
  rejected : Said (Ends CmdOutput.rejectedText) text → SaidInTime (Ends CmdOutput.rejectedText) text
  locked : code ≠ some 0 → fed = false → Said (Ends CmdOutput.noKeyText) text →
    SaidInTime (Ends CmdOutput.noKeyText) text
  noKey : ¬ Said (Ends CmdOutput.rejectedText) text → Said (Ends CmdOutput.noKeyText) text →
    SaidInTime (Ends CmdOutput.noKeyText) text ∨
      fed = true ∧ (SaidInTime (Ends "Not logged in") text ∨
        SaidInTime (Ends "Could not find session") text)
  notLoggedIn : ¬ Said (Ends CmdOutput.rejectedText) text → ¬ Said (Ends CmdOutput.noKeyText) text →
    Said (Ends "Not logged in") text ∨ Said (Ends "Could not find session") text →
    SaidInTime (Ends "Not logged in") text ∨ SaidInTime (Ends "Could not find session") text
  aboutItem : ¬ Said (Ends CmdOutput.rejectedText) text → ¬ Said (Ends CmdOutput.noKeyText) text →
    ¬ (Said (Ends "Not logged in") text ∨ Said (Ends "Could not find session") text) →
    item ≠ none →
    (Said (Ends "Could not find specified account") text →
      SaidInTime (Ends "Could not find specified account") text) ∧
    (¬ Said (Ends "Could not find specified account") text → Said NamesField text →
      SaidInTime NamesField text)

theorem fields_of_exited (hout : CmdOutput.of fed maxBytes (.exited code stdout stderr) = .ok out) :
    out.success = (code == some 0) ∧ out.fed = fed ∧ out.stderr = CmdOutput.diagnostics stderr := by
  rw [CmdOutput.of] at hout
  split_ifs at hout
  obtain rfl := Except.ok.inj hout
  exact ⟨rfl, rfl, rfl⟩

/-! ### Message by message -/

theorem Survives.said {ends : List Char → Prop} {text : List Char} (h : Survives ends)
    (hkept : SaidInTime ends text) : Said ends text :=
  hkept.said fun before _ => h.later before

theorem containsText_iff_inTime (hlength : stderr.length ≤ MAX_FIELD_BYTES)
    (hout : CmdOutput.of fed maxBytes (.exited code stdout stderr) = .ok out) {message : String}
    (h : Survives (Ends message)) : containsText out.stderr message = true ↔
      SaidInTime (Ends message) (fromUtf8Lossy stderr).toList := by
  rw [(fields_of_exited hout).2.2, containsText_iff_said, said_diagnostics h hlength]

theorem containsText_withWhole (out : CmdOutput) (message : String) :
    containsText (out.withWhole stderr).stderr message = true ↔
      Said (Ends message) (fromUtf8Lossy stderr).toList := by
  rw [show (out.withWhole stderr).stderr = fromUtf8Lossy stderr from rfl, containsText_iff_said]

theorem notLoggedIn_iff {p q : Prop} {out : CmdOutput}
    (hlogin : containsText out.stderr "Not logged in" = true ↔ p)
    (hsession : containsText out.stderr "Could not find session" = true ↔ q) :
    (containsText out.stderr "Not logged in" ||
      containsText out.stderr "Could not find session") = true ↔ p ∨ q := by
  rw [Bool.or_eq_true, hlogin, hsession]

theorem locked_iff {out : CmdOutput} (hsuccess : out.success = (code == some 0))
    (hfed : out.fed = fed) : out.locked = true ↔
      code ≠ some 0 ∧ fed = false ∧ containsText out.stderr CmdOutput.noKeyText = true := by
  rw [CmdOutput.locked, hsuccess, hfed]
  simp [and_assoc]

theorem locked_same_iff (hlength : stderr.length ≤ MAX_FIELD_BYTES)
    (hout : CmdOutput.of fed maxBytes (.exited code stdout stderr) = .ok out) :
    out.locked = (out.withWhole stderr).locked ↔ (code ≠ some 0 → fed = false →
      Said (Ends CmdOutput.noKeyText) (fromUtf8Lossy stderr).toList →
        SaidInTime (Ends CmdOutput.noKeyText) (fromUtf8Lossy stderr).toList) := by
  obtain ⟨hsuccess, hfed, -⟩ := fields_of_exited hout
  have hnoKey := survives_ends CmdOutput.noKeyText (by decide)
  have hwhole : (out.withWhole stderr).locked = true ↔ code ≠ some 0 ∧ fed = false ∧
      containsText (out.withWhole stderr).stderr CmdOutput.noKeyText = true :=
    locked_iff hsuccess hfed
  rw [Bool.eq_iff_iff, locked_iff hsuccess hfed, hwhole,
    containsText_iff_inTime hlength hout hnoKey, containsText_withWhole]
  exact ⟨fun h hcode hfed hs => (h.mpr ⟨hcode, hfed, hs⟩).2.2, fun h =>
    ⟨fun ⟨hcode, hfed, hk⟩ => ⟨hcode, hfed, hnoKey.said hk⟩,
      fun ⟨hcode, hfed, hs⟩ => ⟨hcode, hfed, h hcode hfed hs⟩⟩⟩

theorem rejected_same_iff (hlength : stderr.length ≤ MAX_FIELD_BYTES)
    (hout : CmdOutput.of fed maxBytes (.exited code stdout stderr) = .ok out) :
    out.wasRejected = (out.withWhole stderr).wasRejected ↔
      (Said (Ends CmdOutput.rejectedText) (fromUtf8Lossy stderr).toList →
        SaidInTime (Ends CmdOutput.rejectedText) (fromUtf8Lossy stderr).toList) := by
  have hrejected := survives_ends CmdOutput.rejectedText (by decide)
  have hkept := containsText_iff_inTime hlength hout hrejected
  have hwhole := @containsText_withWhole stderr out CmdOutput.rejectedText
  rw [CmdOutput.wasRejected, CmdOutput.wasRejected, Bool.eq_iff_iff, hkept, hwhole]
  exact ⟨fun h => h.mpr, fun h => ⟨hrejected.said, h⟩⟩

/-- With the rejection settled, the kind is the same exactly when the message that makes
it is said in time. -/
theorem kind_same_iff (hlength : stderr.length ≤ MAX_FIELD_BYTES)
    (hout : CmdOutput.of fed maxBytes (.exited code stdout stderr) = .ok out)
    (item : Option String) (hsame : out.wasRejected = (out.withWhole stderr).wasRejected)
    (hrejected : Said (Ends CmdOutput.rejectedText) (fromUtf8Lossy stderr).toList →
      SaidInTime (Ends CmdOutput.rejectedText) (fromUtf8Lossy stderr).toList)
    (hlocked : code ≠ some 0 → fed = false →
      Said (Ends CmdOutput.noKeyText) (fromUtf8Lossy stderr).toList →
        SaidInTime (Ends CmdOutput.noKeyText) (fromUtf8Lossy stderr).toList) :
    (out.classify item).kind = ((out.withWhole stderr).classify item).kind ↔
      DecidedInTime fed code item (fromUtf8Lossy stderr).toList := by
  obtain ⟨-, hfed, hstderr⟩ := fields_of_exited hout
  set text := (fromUtf8Lossy stderr).toList
  set whole := out.withWhole stderr
  have hwholeFed : whole.fed = fed := hfed
  have hnoKey := survives_ends CmdOutput.noKeyText (by decide)
  have hlogin := survives_ends "Not logged in" (by decide)
  have hsession := survives_ends "Could not find session" (by decide)
  have haccount := survives_ends "Could not find specified account" (by decide)
  have hkeptNoKey := containsText_iff_inTime hlength hout hnoKey
  have hkeptAccount := containsText_iff_inTime hlength hout haccount
  have hsaid := fun message => @containsText_withWhole stderr out message
  have hfield : out.missingField.isSome = true ↔ SaidInTime NamesField text := by
    rw [missingField_iff_said, hstderr, said_diagnostics survives_namesField hlength]
  have hnames : whole.missingField.isSome = true ↔ Said NamesField text := by
    rw [missingField_iff_said]
    rfl
  have hnone := notLoggedIn_iff (containsText_iff_inTime hlength hout hlogin)
    (containsText_iff_inTime hlength hout hsession)
  have hsaidNone := notLoggedIn_iff (hsaid "Not logged in") (hsaid "Could not find session")
  have hkinds := @kindOf_eq_iff whole.wasRejected _ _ out.fed _ _ item.isSome _ _ _ _
    (fun h => (hsaid _).mpr (hnoKey.said (hkeptNoKey.mp h)))
    (fun h => hsaidNone.mpr ((hnone.mp h).imp hlogin.said hsession.said))
    (fun h => (hsaid _).mpr (haccount.said (hkeptAccount.mp h)))
    (fun h => hnames.mpr (survives_namesField.said (hfield.mp h)))
  have hwasRejected : whole.wasRejected = true ↔ Said (Ends CmdOutput.rejectedText) text := hsaid _
  have hfalse : ∀ {b : Bool} {p : Prop}, (b = true ↔ p) → (b = false ↔ ¬ p) := by
    intro b p h
    rw [← h, Bool.not_eq_true]
  rw [hfalse hwasRejected, hsaid, hkeptNoKey, hfalse (hsaid _), hnone, hsaidNone,
    hfalse hsaidNone, hkeptAccount, hsaid, hfalse (hsaid _), hfield, hnames,
    Option.isSome_iff_ne_none, hfed] at hkinds
  rw [kind_classify, kind_classify, hsame, hfed, hwholeFed, hkinds]
  constructor
  · rintro ⟨hkey, hlogged, habout⟩
    exact ⟨hrejected, hlocked, hkey, hlogged, habout⟩
  · intro h
    exact ⟨h.noKey, h.notLoggedIn, h.aboutItem⟩

/-- The logged diagnostics are taken as the whole would be exactly when what decides is
said before the cut. -/
theorem same_diagnosis_iff (hlength : stderr.length ≤ MAX_FIELD_BYTES)
    (hout : CmdOutput.of fed maxBytes (.exited code stdout stderr) = .ok out)
    (item : Option String) : SameDiagnosis out (out.withWhole stderr) item ↔
      DecidedInTime fed code item (fromUtf8Lossy stderr).toList := by
  have hrejected := rejected_same_iff hlength hout
  have hlocked := locked_same_iff hlength hout
  constructor
  · intro h
    exact (kind_same_iff hlength hout item h.rejected (hrejected.mp h.rejected)
      (hlocked.mp h.locked)).mp h.kind
  · intro h
    have hsame := hrejected.mpr h.rejected
    exact ⟨hlocked.mpr h.locked, hsame,
      (kind_same_iff hlength hout item hsame h.rejected h.locked).mpr h⟩

end

/-- A run that says just that the password is wrong. -/
theorem same_diagnosis_iff_rejected : ∃ out, CmdOutput.of true MAX_FIELD_BYTES
    (.exited (some 1) [] (utf8 CmdOutput.rejectedText)) = .ok out ∧
    SameDiagnosis out (out.withWhole (utf8 CmdOutput.rejectedText)) (some "11") := by
  have hlength : (utf8 CmdOutput.rejectedText).length ≤ MAX_FIELD_BYTES := by
    have hle := length_utf8_le CmdOutput.rejectedText.toList
    rw [String.ofList_toList] at hle
    exact hle.trans (by decide)
  have hsaid : Said (Ends CmdOutput.rejectedText) CmdOutput.rejectedText.toList :=
    ⟨_, [], (List.append_nil _).symm, List.suffix_rfl⟩
  have hout : CmdOutput.of true MAX_FIELD_BYTES
      (.exited (some 1) [] (utf8 CmdOutput.rejectedText)) = .ok ⟨false, some 1, true, [],
        CmdOutput.diagnostics (utf8 CmdOutput.rejectedText)⟩ := rfl
  refine ⟨_, hout, (same_diagnosis_iff hlength hout (some "11")).mpr ?_⟩
  rw [fromUtf8Lossy_utf8]
  exact {
    rejected := fun _ => ⟨CmdOutput.rejectedText.toList, [], by decide, List.suffix_rfl, by decide⟩
    locked := nofun
    noKey := fun hnot => absurd hsaid hnot
    notLoggedIn := fun hnot => absurd hsaid hnot
    aboutItem := fun hnot => absurd hsaid hnot }

namespace Sample

def prompted (message : String) : List Char :=
  "Please enter the LastPass master password for ".toList ++ List.replicate 250 'a' ++
    ("@example.com.\n\nMaster Password: " ++ message).toList

def wroteOut (message : String) : Bytes := utf8 (String.ofList (prompted message))

end Sample

theorem diagnostics_ofList {text : List Char} (h : 4 * text.length ≤ MAX_FIELD_BYTES) :
    CmdOutput.diagnostics (utf8 (String.ofList text)) =
      String.ofList (((trimEnd (text.dropWhile isWhitespace)).flatMap escapeChar).take 300) := by
  simp [CmdOutput.diagnostics, List.take_of_length_le ((length_utf8_le text).trans h),
    escapeForDisplay, trim]

/-- A rejection, and a vault that is locked, are missed after a prompt that names the
account. -/
theorem diagnosis_lost_to_prompt :
    (∃ out, CmdOutput.of true MAX_FIELD_BYTES
        (.exited (some 1) [] (Sample.wroteOut CmdOutput.rejectedText)) = .ok out ∧
      out.wasRejected = false ∧ (out.classify (some "11")).kind = .commandFailed ∧
      (out.withWhole (Sample.wroteOut CmdOutput.rejectedText)).wasRejected = true ∧
      ((out.withWhole (Sample.wroteOut CmdOutput.rejectedText)).classify (some "11")).kind =
        .wrongMasterPassword) ∧
    ∃ out, CmdOutput.of false MAX_FIELD_BYTES
        (.exited (some 1) [] (Sample.wroteOut CmdOutput.noKeyText)) = .ok out ∧
      out.locked = false ∧ (out.withWhole (Sample.wroteOut CmdOutput.noKeyText)).locked = true := by
  refine ⟨⟨_, rfl, ?_⟩, ⟨_, rfl, ?_⟩⟩
  · rw [Sample.wroteOut, diagnostics_ofList (by decide +kernel), CmdOutput.withWhole,
      fromUtf8Lossy_utf8]
    simp only [kind_classify, CmdOutput.wasRejected, CmdOutput.missingField, containsText,
      String.toList_ofList]
    decide +kernel
  · rw [Sample.wroteOut, diagnostics_ofList (by decide +kernel), CmdOutput.withWhole,
      fromUtf8Lossy_utf8]
    simp only [CmdOutput.locked, containsText, String.toList_ofList]
    decide +kernel

end LastpassSshAgent
