import Mathlib.Data.List.Induction
import Mathlib.Data.List.Nodup
import Mathlib.Data.List.Perm.Basic
import Mathlib.Data.List.TakeWhile
import Mathlib.Logic.Function.Basic
import LastpassSshAgent.Framing.Words
import LastpassSshAgent.Lpass
import LastpassSshAgent.Ssh

/-!
# The names `known_hosts` has for a host key

The files are folded into one index, line by line. A revocation is a fact about the key,
so it is kept apart from the names, and holds whatever else the files say and in
whatever order.
-/

namespace LastpassSshAgent

/-- What one line contributes to the index. -/
inductive Line where
  | named (fingerprint hosts : String)
  | revoked (fingerprint : String)
  | hashed
  deriving DecidableEq, Repr

def startsWith (start text : String) : Bool := start.toList.isPrefixOf text.toList

def splitWhitespace (text : String) : List String :=
  (Framing.words isWhitespace text.toList).map String.ofList

def keyFingerprint (ssh : Ssh) (algorithm key : String) : Option String :=
  (ssh.publicFromOpenssh (algorithm ++ " " ++ key)).toOption.map fun parsed =>
    ssh.fingerprint parsed.keyData

variable (ssh : Ssh)

/-- A line from its hosts on. An ordinary line whose hosts are hashed stops here. -/
def keyLine (revoked : Bool) (hosts : String) (fields : List String) : Option Line :=
  if !revoked && startsWith "|1|" hosts then some .hashed
  else
    match fields with
    | algorithm :: key :: _ => (keyFingerprint ssh algorithm key).map fun fingerprint =>
        if revoked then .revoked fingerprint else .named fingerprint hosts
    | _ => none

def parseLine (line : List Char) : Option Line :=
  let text := trim (String.ofList line)
  if text.isEmpty || startsWith "#" text then none
  else
    match splitWhitespace text with
    | [] => none
    | first :: fields =>
      if first = "@revoked" then
        match fields with
        | [] => none
        | hosts :: fields => keyLine ssh true hosts fields
      else if startsWith "@" first then none
      else keyLine ssh false first fields

structure Index where
  names : String → Option (List String)
  revoked : List String
  hashed : ℕ

namespace Index

def empty : Index := ⟨fun _ => none, [], 0⟩

/-- Every name the key has, not the first: a binding proves the key only. -/
def nameFor (index : Index) (fingerprint : String) : Option String :=
  if fingerprint ∈ index.revoked then none
  else (index.names fingerprint).map fun names => ", ".intercalate names

def addLine (index : Index) (line : List Char) : Index :=
  match parseLine ssh line with
  | some (.named fingerprint hosts) =>
    let names := (index.names fingerprint).getD []
    { index with
      names := Function.update index.names fingerprint
        (some (if hosts ∈ names then names else names ++ [hosts])) }
  | some (.revoked fingerprint) => { index with revoked := index.revoked.insert fingerprint }
  | some .hashed => { index with hashed := index.hashed + 1 }
  | none => index

def add (index : Index) (contents : String) : Index := (lines contents).foldl (addLine ssh) index

end Index

def indexFiles (files : List (Option String)) : Index :=
  files.foldl (fun index contents => contents.elim index (index.add ssh)) .empty

/-! ### Lines by their fields -/

def fieldsOf (line : List Char) : List String := (Framing.words isWhitespace line).map String.ofList

theorem exists_trimEnd (text : List Char) :
    ∃ back, text = trimEnd text ++ back ∧ ∀ c ∈ back, isWhitespace c = true := by
  refine ⟨(text.reverse.takeWhile isWhitespace).reverse, ?_, fun c hc => ?_⟩
  · rw [trimEnd, ← List.reverse_append, List.takeWhile_append_dropWhile, List.reverse_reverse]
  · exact List.mem_takeWhile_imp (List.mem_reverse.mp hc)

theorem exists_trim (line : List Char) : ∃ front back,
    line = front ++ (trim (String.ofList line)).toList ++ back ∧
      (∀ c ∈ front, isWhitespace c = true) ∧ (∀ c ∈ back, isWhitespace c = true) ∧
      ∀ c text, (trim (String.ofList line)).toList = c :: text → isWhitespace c = false := by
  obtain ⟨back, hsplit, hback⟩ := exists_trimEnd (line.dropWhile isWhitespace)
  rw [trim, String.toList_ofList, String.toList_ofList]
  refine ⟨line.takeWhile isWhitespace, back, ?_, fun c hc => List.mem_takeWhile_imp hc, hback, ?_⟩
  · rw [List.append_assoc, ← hsplit, List.takeWhile_append_dropWhile]
  · intro c text htext
    have hhead := List.head?_dropWhile_not isWhitespace line
    rw [hsplit, htext] at hhead
    exact hhead

theorem splitWhitespace_trim (line : List Char) :
    splitWhitespace (trim (String.ofList line)) = fieldsOf line := by
  obtain ⟨front, back, hline, hfront, hback, -⟩ := exists_trim line
  have hwords := congrArg (Framing.words isWhitespace) hline
  rw [Framing.words_append_separators hback, Framing.words_separators_append hfront] at hwords
  rw [fieldsOf, hwords, splitWhitespace]

theorem parseLine_eq (line : List Char) : parseLine ssh line =
    match fieldsOf line with
    | [] => none
    | first :: fields =>
      if startsWith "#" first then none
      else if first = "@revoked" then
        match fields with
        | [] => none
        | hosts :: fields => keyLine ssh true hosts fields
      else if startsWith "@" first then none
      else keyLine ssh false first fields := by
  obtain ⟨-, -, -, -, -, hhead⟩ := exists_trim line
  rw [parseLine, ← splitWhitespace_trim]
  generalize trim (String.ofList line) = text at hhead
  cases htext : text.toList with
  | nil =>
    obtain rfl : text = "" := String.toList_eq_nil_iff.mp htext
    rfl
  | cons c rest =>
    obtain ⟨first, fields, hwords⟩ := Framing.words_cons (hhead c rest htext) rest
    have hfields :
        splitWhitespace text = String.ofList (c :: first) :: fields.map String.ofList := by
      rw [splitWhitespace, htext, hwords]
      rfl
    have hempty : text.isEmpty = false := by
      rw [← Bool.not_eq_true, String.isEmpty_iff]
      rintro rfl
      cases htext
    have hcomment : startsWith "#" text = startsWith "#" (String.ofList (c :: first)) := by
      rw [startsWith, startsWith, htext, String.toList_ofList]
      simp [List.isPrefixOf]
    rw [hfields, hempty, hcomment, Bool.false_or]

/-! ### What a line says of a key -/

/-- Not a comment, not marked, not hashed. -/
def ordinary (hosts : String) : Bool :=
  !startsWith "#" hosts && !startsWith "@" hosts && !startsWith "|1|" hosts

def hostsFor (fingerprint : String) (line : List Char) : Option String :=
  match fieldsOf line with
  | hosts :: algorithm :: key :: _ =>
    if ordinary hosts && keyFingerprint ssh algorithm key == some fingerprint then some hosts
    else none
  | _ => none

def revokes (fingerprint : String) (line : List Char) : Bool :=
  match fieldsOf line with
  | marker :: _ :: algorithm :: key :: _ =>
    marker == "@revoked" && keyFingerprint ssh algorithm key == some fingerprint
  | _ => false

variable {ssh}

theorem keyLine_revoked {hosts : String} {fields : List String} {fingerprint : String} :
    keyLine ssh true hosts fields = some (.revoked fingerprint) ↔
      ∃ algorithm key rest, fields = algorithm :: key :: rest ∧
        keyFingerprint ssh algorithm key = some fingerprint := by
  unfold keyLine
  cases fields with
  | nil => simp
  | cons algorithm fields =>
    cases fields with
    | nil => simp
    | cons key rest => simp

theorem keyLine_named {hosts hosts' : String} {fields : List String} {fingerprint : String} :
    keyLine ssh false hosts fields = some (.named fingerprint hosts') ↔
      startsWith "|1|" hosts = false ∧ hosts = hosts' ∧ ∃ algorithm key rest,
        fields = algorithm :: key :: rest ∧ keyFingerprint ssh algorithm key = some fingerprint := by
  unfold keyLine
  by_cases hhashed : startsWith "|1|" hosts = true
  · simp [hhashed]
  · cases fields with
    | nil => simp [hhashed]
    | cons algorithm fields =>
      cases fields with
      | nil => simp [hhashed]
      | cons key rest => simp [hhashed, and_comm]

theorem keyLine_marked {hosts hosts' : String} {fields : List String} {fingerprint : String} :
    keyLine ssh true hosts fields ≠ some (.named fingerprint hosts') := by
  unfold keyLine
  cases fields with
  | nil => simp
  | cons algorithm fields => cases fields <;> simp

theorem keyLine_unmarked {hosts : String} {fields : List String} {fingerprint : String} :
    keyLine ssh false hosts fields ≠ some (.revoked fingerprint) := by
  unfold keyLine
  by_cases hhashed : startsWith "|1|" hosts = true
  · simp [hhashed]
  · cases fields with
    | nil => simp [hhashed]
    | cons algorithm fields => cases fields <;> simp [hhashed]

theorem hostsFor_iff {line : List Char} {fingerprint hosts : String} :
    hostsFor ssh fingerprint line = some hosts ↔ ordinary hosts = true ∧ ∃ algorithm key rest,
      fieldsOf line = hosts :: algorithm :: key :: rest ∧
        keyFingerprint ssh algorithm key = some fingerprint := by
  unfold hostsFor
  split
  · next first algorithm key rest hfields =>
    rw [hfields]
    simp only [Option.ite_none_right_eq_some, Bool.and_eq_true, beq_iff_eq, Option.some.injEq,
      List.cons.injEq]
    constructor
    · rintro ⟨⟨hordinary, hkey⟩, rfl⟩
      exact ⟨hordinary, algorithm, key, rest, ⟨rfl, rfl, rfl, rfl⟩, hkey⟩
    · rintro ⟨hordinary, _, _, _, ⟨rfl, rfl, rfl, rfl⟩, hkey⟩
      exact ⟨⟨hordinary, hkey⟩, rfl⟩
  · next hshort =>
    refine iff_of_false nofun ?_
    rintro ⟨-, algorithm, key, rest, hfields, -⟩
    exact hshort _ _ _ _ hfields

theorem revokes_iff {line : List Char} {fingerprint : String} :
    revokes ssh fingerprint line = true ↔ ∃ hosts algorithm key rest,
      fieldsOf line = "@revoked" :: hosts :: algorithm :: key :: rest ∧
        keyFingerprint ssh algorithm key = some fingerprint := by
  unfold revokes
  split
  · next marker hosts algorithm key rest hfields =>
    rw [hfields]
    simp
  · next hshort =>
    refine iff_of_false nofun ?_
    rintro ⟨hosts, algorithm, key, rest, hfields, -⟩
    exact hshort _ _ _ _ _ hfields

theorem marker_starts : startsWith "#" "@revoked" = false ∧ startsWith "@" "@revoked" = true := by
  decide

theorem parseLine_named {line : List Char} {fingerprint hosts : String} :
    parseLine ssh line = some (.named fingerprint hosts) ↔
      hostsFor ssh fingerprint line = some hosts := by
  rw [parseLine_eq, hostsFor_iff]
  cases hfields : fieldsOf line with
  | nil => simp
  | cons first fields =>
    have hother : ordinary first = false → ¬ (ordinary hosts = true ∧ ∃ algorithm key rest,
        first :: fields = hosts :: algorithm :: key :: rest ∧
          keyFingerprint ssh algorithm key = some fingerprint) := by
      rintro hfirst ⟨hordinary, _, _, _, hcons, -⟩
      rw [← (List.cons.inj hcons).1, hfirst] at hordinary
      cases hordinary
    dsimp only
    by_cases hcomment : startsWith "#" first = true
    · rw [if_pos hcomment]
      exact iff_of_false nofun (hother (by simp [ordinary, hcomment]))
    · rw [if_neg hcomment]
      by_cases hmarked : first = "@revoked"
      · rw [if_pos hmarked]
        refine iff_of_false ?_ (hother (by simp [ordinary, hmarked, marker_starts]))
        cases fields with
        | nil => nofun
        | cons hosts' fields => exact keyLine_marked
      · rw [if_neg hmarked]
        by_cases hmarker : startsWith "@" first = true
        · rw [if_pos hmarker]
          exact iff_of_false nofun (hother (by simp [ordinary, hmarker]))
        · rw [if_neg hmarker, keyLine_named]
          constructor
          · rintro ⟨hhashed, rfl, algorithm, key, rest, rfl, hkey⟩
            exact ⟨by simp [ordinary, hcomment, hmarker, hhashed], algorithm, key, rest, rfl, hkey⟩
          · rintro ⟨hordinary, algorithm, key, rest, hcons, hkey⟩
            obtain ⟨rfl, rfl⟩ := List.cons.inj hcons
            have hhashed : startsWith "|1|" first = false := by
              simpa [ordinary, hcomment, hmarker] using hordinary
            exact ⟨hhashed, rfl, algorithm, key, rest, rfl, hkey⟩

theorem parseLine_revoked {line : List Char} {fingerprint : String} :
    parseLine ssh line = some (.revoked fingerprint) ↔ revokes ssh fingerprint line = true := by
  rw [parseLine_eq, revokes_iff]
  cases hfields : fieldsOf line with
  | nil => simp
  | cons first fields =>
    dsimp only
    by_cases hmarked : first = "@revoked"
    · subst hmarked
      rw [if_neg (by simp [marker_starts]), if_pos rfl]
      cases fields with
      | nil => simp
      | cons hosts fields =>
        rw [keyLine_revoked]
        simp
    · have hunmarked : ¬ ∃ hosts algorithm key rest,
          first :: fields = "@revoked" :: hosts :: algorithm :: key :: rest ∧
            keyFingerprint ssh algorithm key = some fingerprint := by
        rintro ⟨_, _, _, _, hcons, -⟩
        exact hmarked (List.cons.inj hcons).1
      refine iff_of_false ?_ hunmarked
      rw [if_neg hmarked]
      split_ifs
      · nofun
      · nofun
      · exact keyLine_unmarked

/-! ### First appearances -/

theorem eraseDups_concat {α : Type} [DecidableEq α] (items : List α) (item : α) :
    (items ++ [item]).eraseDups =
      if item ∈ items then items.eraseDups else items.eraseDups ++ [item] := by
  rw [List.eraseDups_append]
  by_cases hseen : item ∈ items
  · simp [List.removeAll, hseen]
  · simp [List.removeAll, hseen, List.eraseDups_cons]

theorem nodup_eraseDups {α : Type} [DecidableEq α] (items : List α) : items.eraseDups.Nodup := by
  induction items using List.reverseRecOn with
  | nil => simp
  | append_singleton items item ih =>
    rw [eraseDups_concat]
    split_ifs with hseen
    · exact ih
    · rw [← List.concat_eq_append]
      exact List.Nodup.concat (mt List.mem_eraseDups.mp hseen) ih

theorem perm_eraseDups {α : Type} [DecidableEq α] {items items' : List α} (h : items.Perm items') :
    items.eraseDups.Perm items'.eraseDups := by
  rw [List.perm_ext_iff_of_nodup (nodup_eraseDups _) (nodup_eraseDups _)]
  intro item
  rw [List.mem_eraseDups, List.mem_eraseDups, h.mem_iff]

/-! ### The index of a list of lines -/

namespace Index

variable (ssh) in
def ofLines (text : List (List Char)) : Index := text.foldl (addLine ssh) .empty

theorem ofLines_concat (text : List (List Char)) (line : List Char) :
    ofLines ssh (text ++ [line]) = (ofLines ssh text).addLine ssh line := by
  simp [ofLines]

theorem addLine_of_named {index : Index} {line : List Char} {fingerprint hosts : String}
    (h : parseLine ssh line = some (.named fingerprint hosts)) :
    (index.addLine ssh line).names fingerprint =
      some (if hosts ∈ (index.names fingerprint).getD [] then (index.names fingerprint).getD []
        else (index.names fingerprint).getD [] ++ [hosts]) := by
  simp [addLine, h]

theorem addLine_of_unnamed {index : Index} {line : List Char} {fingerprint : String}
    (h : ∀ hosts, parseLine ssh line ≠ some (.named fingerprint hosts)) :
    (index.addLine ssh line).names fingerprint = index.names fingerprint := by
  unfold addLine
  split
  · next fingerprint' hosts hparse =>
    have hother : fingerprint ≠ fingerprint' := by
      rintro rfl
      exact h hosts hparse
    exact Function.update_of_ne hother _ _
  · rfl
  · rfl
  · rfl

theorem mem_revoked_addLine {index : Index} {line : List Char} {fingerprint : String} :
    fingerprint ∈ (index.addLine ssh line).revoked ↔
      fingerprint ∈ index.revoked ∨ parseLine ssh line = some (.revoked fingerprint) := by
  unfold addLine
  split
  · next hparse => simp [hparse]
  · next fingerprint' hparse => simp [hparse, or_comm, eq_comm]
  · next hparse => simp [hparse]
  · next hparse => simp [hparse]

/-- The names kept are the recorded hosts, each where it first appeared. -/
theorem names_ofLines (text : List (List Char)) (fingerprint : String) :
    (ofLines ssh text).names fingerprint =
      let recorded := text.filterMap (hostsFor ssh fingerprint)
      if recorded = [] then none else some recorded.eraseDups := by
  induction text using List.reverseRecOn with
  | nil => rfl
  | append_singleton text line ih =>
    have hkept : ((ofLines ssh text).names fingerprint).getD [] =
        (text.filterMap (hostsFor ssh fingerprint)).eraseDups := by
      rw [ih]
      dsimp only
      split_ifs with hnone
      · rw [hnone]
        rfl
      · rfl
    rw [ofLines_concat, List.filterMap_append]
    cases hline : hostsFor ssh fingerprint line with
    | none =>
      have hunnamed (hosts : String) : parseLine ssh line ≠ some (.named fingerprint hosts) := by
        rw [Ne, parseLine_named, hline]
        nofun
      rw [addLine_of_unnamed hunnamed, ih]
      simp [hline]
    | some hosts =>
      rw [addLine_of_named (parseLine_named.mpr hline), hkept]
      simp [hline, eraseDups_concat]

theorem mem_revoked_ofLines (text : List (List Char)) (fingerprint : String) :
    fingerprint ∈ (ofLines ssh text).revoked ↔
      ∃ line ∈ text, revokes ssh fingerprint line = true := by
  induction text using List.reverseRecOn with
  | nil => simp [ofLines, empty]
  | append_singleton text line ih =>
    rw [ofLines_concat, mem_revoked_addLine, ih, parseLine_revoked]
    simp [or_and_right, exists_or]

variable (ssh) in
theorem foldl_add (files : List String) :
    files.foldl (add ssh) .empty = ofLines ssh (files.flatMap lines) := by
  rw [ofLines, List.foldl_flatMap]
  rfl

end Index

variable (ssh) in
theorem indexFiles_eq (files : List (Option String)) :
    indexFiles ssh files = files.reduceOption.foldl (Index.add ssh) .empty := by
  rw [indexFiles]
  generalize Index.empty = index
  induction files generalizing index with
  | nil => rfl
  | cons contents files ih =>
    cases contents with
    | none => exact ih index
    | some contents => exact ih (index.add ssh contents)

/-! ### Naming a key -/

def recorded (ssh : Ssh) (contents : List String) (fingerprint : String) : List String :=
  (contents.flatMap lines).filterMap (hostsFor ssh fingerprint)

def Revoked (ssh : Ssh) (contents : List String) (fingerprint : String) : Prop :=
  ∃ file ∈ contents, ∃ line ∈ lines file, ∃ hosts algorithm key rest,
    fieldsOf line = "@revoked" :: hosts :: algorithm :: key :: rest ∧
      keyFingerprint ssh algorithm key = some fingerprint

def shown (ssh : Ssh) (contents : List String) (fingerprint : String) : Option String :=
  (contents.foldl (Index.add ssh) .empty).nameFor fingerprint

structure NamesHosts (ssh : Ssh) : Prop where
  /-- The files that cannot be read are as if they were not there. -/
  files (files : List (Option String)) :
    indexFiles ssh files = files.reduceOption.foldl (Index.add ssh) .empty
  revoked (contents : List String) (fingerprint : String) :
    Revoked ssh contents fingerprint → shown ssh contents fingerprint = none
  named (contents : List String) (fingerprint : String) :
    ¬ Revoked ssh contents fingerprint → shown ssh contents fingerprint =
      if recorded ssh contents fingerprint = [] then none
      else some (", ".intercalate (recorded ssh contents fingerprint).eraseDups)
  mem_recorded (contents : List String) (fingerprint hosts : String) :
    hosts ∈ recorded ssh contents fingerprint ↔
      ∃ file ∈ contents, ∃ line ∈ lines file, ordinary hosts = true ∧ ∃ algorithm key rest,
        fieldsOf line = hosts :: algorithm :: key :: rest ∧
          keyFingerprint ssh algorithm key = some fingerprint
  permuted (contents contents' : List String) (fingerprint : String) :
    (contents.flatMap lines).Perm (contents'.flatMap lines) →
      (shown ssh contents fingerprint = none ↔ shown ssh contents' fingerprint = none) ∧
      (recorded ssh contents fingerprint).eraseDups.Perm
        (recorded ssh contents' fingerprint).eraseDups

theorem revoked_iff {contents : List String} {fingerprint : String} :
    Revoked ssh contents fingerprint ↔
      ∃ line ∈ contents.flatMap lines, revokes ssh fingerprint line = true := by
  simp only [Revoked, List.mem_flatMap, revokes_iff]
  constructor
  · rintro ⟨file, hfile, line, hline, hrevokes⟩
    exact ⟨line, ⟨file, hfile, hline⟩, hrevokes⟩
  · rintro ⟨line, ⟨file, hfile, hline⟩, hrevokes⟩
    exact ⟨file, hfile, line, hline, hrevokes⟩

theorem shown_eq (contents : List String) (fingerprint : String)
    [Decidable (Revoked ssh contents fingerprint)] :
    shown ssh contents fingerprint =
      if Revoked ssh contents fingerprint ∨ recorded ssh contents fingerprint = [] then none
      else some (", ".intercalate (recorded ssh contents fingerprint).eraseDups) := by
  rw [shown, Index.foldl_add, Index.nameFor, Index.names_ofLines]
  have hrevoked : fingerprint ∈ (Index.ofLines ssh (contents.flatMap lines)).revoked ↔
      Revoked ssh contents fingerprint :=
    (Index.mem_revoked_ofLines _ _).trans revoked_iff.symm
  rw [← recorded]
  by_cases h : Revoked ssh contents fingerprint
  · rw [if_pos (hrevoked.mpr h), if_pos (.inl h)]
  · rw [if_neg (mt hrevoked.mp h)]
    by_cases hnone : recorded ssh contents fingerprint = []
    · simp [hnone]
    · simp [h, hnone]

open Classical in
theorem hosts_named (ssh : Ssh) : NamesHosts ssh where
  files := indexFiles_eq ssh
  revoked contents fingerprint h := by
    rw [shown_eq, if_pos (.inl h)]
  named contents fingerprint h := by
    rw [shown_eq]
    simp [h]
  mem_recorded contents fingerprint hosts := by
    simp only [recorded, List.mem_filterMap, List.mem_flatMap, hostsFor_iff]
    constructor
    · rintro ⟨line, ⟨file, hfile, hline⟩, hfields⟩
      exact ⟨file, hfile, line, hline, hfields⟩
    · rintro ⟨file, hfile, line, hline, hfields⟩
      exact ⟨line, ⟨file, hfile, hline⟩, hfields⟩
  permuted contents contents' fingerprint h := by
    have hrecorded := h.filterMap (hostsFor ssh fingerprint)
    have hrevoked : Revoked ssh contents fingerprint ↔ Revoked ssh contents' fingerprint := by
      simp only [revoked_iff, h.mem_iff]
    have hnone :
        recorded ssh contents fingerprint = [] ↔ recorded ssh contents' fingerprint = [] := by
      rw [recorded, recorded, ← List.length_eq_zero_iff, hrecorded.length_eq,
        List.length_eq_zero_iff]
    refine ⟨?_, perm_eraseDups hrecorded⟩
    rw [shown_eq, shown_eq]
    simp [hrevoked, hnone]

end LastpassSshAgent
