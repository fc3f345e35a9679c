import Mathlib.Data.List.Induction
import LastpassSshAgent.Completeness
import LastpassSshAgent.Framing.Delimited
import LastpassSshAgent.Resumption.Traces

/-!
# Which items a listing shows

The last marker of a line counts, so a name with markers of its own is read back whole.
A name with a line feed is not one line, and what follows the line feed reads as an item
of its own.
-/

namespace LastpassSshAgent

open Resumption

/-! ### One line -/

theorem splitOnce_append_of_notMem {c : Char} {pattern front back : List Char} (h : c ∉ front) :
    splitOnce (c :: pattern) (front ++ (c :: pattern ++ back)) = some (front, back) := by
  induction front with
  | nil => simp [splitOnce]
  | cons d front ih =>
    obtain ⟨hd, hfront⟩ := not_or.mp (mt List.mem_cons.mpr h)
    rw [List.cons_append, splitOnce, ih hfront]
    simp [List.isPrefixOf, hd]

theorem rsplitOnce_append (pattern before : List Char) {c : Char} {after : List Char}
    (h : c ∉ after) :
    rsplitOnce (pattern ++ [c]) (before ++ (pattern ++ [c]) ++ after) = some (before, after) := by
  have hreverse : splitOnce (c :: pattern.reverse)
      (after.reverse ++ (c :: pattern.reverse ++ before.reverse)) =
        some (after.reverse, before.reverse) := splitOnce_append_of_notMem (by simpa using h)
  have htext : (before ++ (pattern ++ [c]) ++ after).reverse =
      after.reverse ++ (c :: pattern.reverse ++ before.reverse) := by simp
  rw [rsplitOnce, htext, List.reverse_append, List.reverse_singleton, List.singleton_append,
    hreverse]
  simp

namespace ItemSummary

def line (item : ItemSummary) : List Char :=
  item.name.toList ++ " [id: ".toList ++ item.id.toList ++ [']']

theorem trimEnd_line (item : ItemSummary) : trimEnd item.line = item.line := by
  have hbracket : isWhitespace ']' = false := rfl
  rw [trimEnd, line, List.reverse_append, List.reverse_singleton, List.singleton_append,
    List.dropWhile_cons_of_neg (by simp [hbracket])]
  simp

theorem notMem_id {item : ItemSummary} (h : isItemId item.id = true) {c : Char}
    (hc : ¬ ('0' ≤ c ∧ c ≤ '9')) : c ∉ item.id.toList := by
  intro hmem
  obtain ⟨-, hdigits⟩ := Bool.and_eq_true_iff.mp h
  have hdigit := List.all_eq_true.mp hdigits c hmem
  exact hc (by simpa using hdigit)

theorem parseLsLine_line {item : ItemSummary} (h : isItemId item.id = true) :
    parseLsLine item.line = some item := by
  have hrest : item.line.reverse =
      ']' :: (item.name.toList ++ " [id: ".toList ++ item.id.toList).reverse := by
    rw [line, List.reverse_append, List.reverse_singleton, List.singleton_append]
  have hsplit : rsplitOnce " [id: ".toList (item.name.toList ++ " [id: ".toList ++ item.id.toList) =
      some (item.name.toList, item.id.toList) :=
    rsplitOnce_append " [id:".toList item.name.toList (notMem_id h (by decide))
  rw [parseLsLine, trimEnd_line, hrest]
  simp only [List.reverse_reverse, hsplit, String.ofList_toList, h, if_true]

theorem newline_notMem_name {text : List Char} {item : ItemSummary} (htext : '\n' ∉ text)
    (h : parseLsLine text = some item) : '\n' ∉ item.name.toList := by
  intro hname
  unfold parseLsLine at h
  split at h
  · next rest hrest =>
    split at h
    · next name id hsplit =>
      split_ifs at h
      obtain rfl := Option.some.inj h
      rw [String.toList_ofList] at hname
      obtain ⟨⟨after, before⟩, hfirst, heq⟩ := Option.map_eq_some_iff.mp hsplit
      obtain ⟨rfl, -⟩ := Prod.mk.inj heq
      have hmem : '\n' ∈ rest := by
        rw [← rest.reverse_reverse, append_of_splitOnce hfirst]
        exact List.mem_append_right _ (List.mem_reverse.mp hname)
      have htrimmed : '\n' ∈ trimEnd text := by
        rw [← List.mem_reverse, hrest]
        exact List.mem_cons_of_mem _ hmem
      exact htext ((trimEnd_isPrefix text).subset htrimmed)
    · cases h
  · cases h

end ItemSummary

/-! ### The whole listing -/

theorem newline_notMem_of_mem_lines {text : String} {line : List Char} (h : line ∈ lines text) :
    '\n' ∉ line := by
  rcases List.mem_append.mp h with h | h
  · obtain ⟨piece, hpiece, rfl⟩ := List.mem_map.mp h
    have hpiece := Framing.notMem_of_mem_splitOn (List.dropLast_subset _ hpiece)
    split_ifs
    · exact fun hnewline => hpiece (List.dropLast_subset _ hnewline)
    · exact hpiece
  · have hlast := Option.mem_toList.mp (List.mem_filter.mp h).1
    exact Framing.notMem_of_mem_splitOn (List.mem_of_getLast? hlast)

theorem lines_intercalate {pieces : List (List Char)} (hne : pieces ≠ [])
    (hline : ∀ piece ∈ pieces, '\n' ∉ piece) (hlast : ∀ piece ∈ pieces, piece.getLast? = some ']') :
    lines (String.ofList (['\n'].intercalate pieces)) = pieces := by
  have hsplit := List.splitOn_intercalate '\n' hline hne
  have hkept : pieces.dropLast.map
      (fun line => if line.getLast? = some '\r' then line.dropLast else line) = pieces.dropLast := by
    refine (List.map_congr_left fun piece hpiece => ?_).trans (List.map_id _)
    rw [hlast piece (List.dropLast_subset _ hpiece), if_neg (by decide)]
    rfl
  have hend : (pieces.getLast hne).isEmpty = false := by
    have hbracket := hlast _ (List.getLast_mem hne)
    cases hpiece : pieces.getLast hne with
    | nil => simp [hpiece] at hbracket
    | cons c piece => rfl
  rw [lines, String.toList_ofList, hsplit, hkept, List.getLast?_eq_some_getLast hne]
  simp [hend, List.dropLast_append_getLast hne]

def listing (items : List ItemSummary) : String :=
  String.ofList (Framing.terminated '\n' (items.map ItemSummary.line))

theorem stripNewline_bracket (text : List Char) :
    CmdOutput.stripNewline (utf8 (String.ofList (text ++ [']', '\n']))) =
      utf8 (String.ofList (text ++ [']'])) := by
  have hbracket : utf8 (String.ofList [']']) = [93] := rfl
  have hended : utf8 (String.ofList [']', '\n']) = [93] ++ [10] := rfl
  rw [String.ofList_append, String.ofList_append, utf8_append, utf8_append, hbracket, hended,
    CmdOutput.stripNewline, ← List.append_assoc, List.getLast?_concat, List.dropLast_concat,
    List.getLast?_concat, if_pos rfl, if_neg (by decide)]

theorem stripNewline_listing (front : List ItemSummary) (last : ItemSummary) :
    CmdOutput.stripNewline (utf8 (listing (front ++ [last]))) =
      utf8 (String.ofList (['\n'].intercalate ((front ++ [last]).map ItemSummary.line))) := by
  have hstripped := stripNewline_bracket (Framing.terminated '\n' (front.map ItemSummary.line) ++
    last.name.toList ++ " [id: ".toList ++ last.id.toList)
  rw [listing, List.map_append, List.map_singleton, Framing.terminated_concat,
    Framing.intercalate_concat, ItemSummary.line]
  simpa only [List.append_assoc, List.cons_append, List.nil_append] using hstripped

/-- The items `lpass` printed, when each name is on the line of its item. -/
theorem listed_listing {items : List ItemSummary} (hids : ∀ item ∈ items, isItemId item.id = true)
    (hnames : ∀ item ∈ items, '\n' ∉ item.name.toList) :
    (lines (fromUtf8Lossy (CmdOutput.stripNewline (utf8 (listing items))))).filterMap parseLsLine =
      items := by
  cases items using List.reverseRecOn with
  | nil => rfl
  | append_singleton front last =>
    have hline : ∀ text ∈ (front ++ [last]).map ItemSummary.line,
        '\n' ∉ text ∧ text.getLast? = some ']' := by
      intro text htext
      obtain ⟨item, hitem, rfl⟩ := List.mem_map.mp htext
      have hid : '\n' ∉ item.id.toList := ItemSummary.notMem_id (hids item hitem) (by decide)
      exact ⟨by simp [ItemSummary.line, hnames item hitem, hid], List.getLast?_concat ..⟩
    rw [stripNewline_listing, fromUtf8Lossy_utf8, lines_intercalate (by simp)
      (fun text htext => (hline text htext).1) (fun text htext => (hline text htext).2),
      List.filterMap_map]
    have hparse : ∀ item ∈ front ++ [last], (parseLsLine ∘ ItemSummary.line) item = some item :=
      fun item hitem => ItemSummary.parseLsLine_line (hids item hitem)
    rw [List.filterMap_congr hparse, List.filterMap_some]

/-! ### The call -/

def Printed (run : LpassRun) (stdout : Bytes) : Prop := ∃ stderr, run = .exited (some 0) stdout stderr

def LISTING : List String := ["ls", "--color=never"]

def Prints (items : List ItemSummary) (acts : List (Act runtime)) : Prop :=
  ∀ password (run : LpassRun), .answered (.lpass LISTING password MAX_LISTING_BYTES) run ∈ acts →
    ∀ stdout, Printed run stdout → stdout = utf8 (listing items)

def AlwaysPrints (acts : List (Act runtime)) : Prop :=
  ∀ password (run : LpassRun), .answered (.lpass LISTING password MAX_LISTING_BYTES) run ∈ acts →
    ∃ stdout, Printed run stdout

/-- A listing gives the items, each once and in their order, and nothing but `lpass`
keeps it from doing so. -/
structure ListsExactly (items : List ItemSummary) (acts : List (Act runtime))
    (result : Except LpassError (List ItemSummary)) : Prop where
  same : ∀ found, result = .ok found → found = items
  answered : (utf8 (listing items)).length ≤ MAX_LISTING_BYTES → AlwaysPrints acts →
    ∃ found, result = .ok found

namespace LpassCli

variable {cli : LpassCli} {acts : List (Act runtime)}

theorem traces_exec {args : List String} {password : Option Bytes} {maxBytes : ℕ}
    {result : Except LpassError CmdOutput} (h : (exec args password maxBytes).Traces acts result) :
    ∃ run : LpassRun, .answered (.lpass args password maxBytes) run ∈ acts ∧
      result = CmdOutput.of password.isSome maxBytes run := by
  obtain ⟨run, rest, rfl, hdone⟩ := Program.traces_ask.mp h
  obtain ⟨rfl, rfl⟩ := Program.traces_done.mp hdone
  exact ⟨run, by simp, rfl⟩

theorem traces_retry {args : List String} {maxBytes : ℕ} {out : CmdOutput}
    {result : Except LpassError CmdOutput} (h : (cli.retry args maxBytes out).Traces acts result) :
    result = .ok out ∨ (out.locked = true ∧ ∃ e, result = .error e) ∨ ∃ password, ∃ run : LpassRun,
      .answered (.lpass args password maxBytes) run ∈ acts ∧
        result = CmdOutput.of password.isSome maxBytes run := by
  unfold retry at h
  split_ifs at h with hlocked
  · obtain ⟨password, front, rest, rfl, -, hrest⟩ := Program.traces_bind.mp h
    cases password with
    | error e => exact .inr (.inl ⟨hlocked, e, (Program.traces_done.mp hrest).2⟩)
    | ok password =>
      cases password with
      | none => exact .inl (Program.traces_done.mp hrest).2
      | some secret =>
        obtain ⟨run, hrun, hresult⟩ := traces_exec hrest
        exact .inr (.inr ⟨some secret, run, List.mem_append_right front hrun, hresult⟩)
  · exact .inl (Program.traces_done.mp h).2

theorem traces_run {args : List String} {maxBytes : ℕ} {result : Except LpassError CmdOutput}
    (h : (cli.run args maxBytes).Traces acts result) : ∃ password, ∃ run : LpassRun,
      .answered (.lpass args password maxBytes) run ∈ acts ∧
      (result = CmdOutput.of password.isSome maxBytes run ∨
        (∃ e, result = .error e) ∧ ∃ out, CmdOutput.of password.isSome maxBytes run = .ok out ∧
          out.locked = true) := by
  obtain ⟨held, front, rest, rfl, -, hrest⟩ := Program.traces_bind.mp h
  obtain ⟨first, tried, rest, rfl, hexec, hrest⟩ := Program.traces_bind.mp hrest
  obtain ⟨run, hrun, rfl⟩ := traces_exec hexec
  cases hfirst : CmdOutput.of held.isSome maxBytes run with
  | error e =>
    rw [hfirst] at hrest
    exact ⟨held, run, by simp [hrun], .inl ((Program.traces_done.mp hrest).2.trans hfirst.symm)⟩
  | ok out =>
    rw [hfirst] at hrest
    obtain ⟨second, again, rest, rfl, hretry, hrest⟩ := Program.traces_bind.mp hrest
    have hkept : result = second := by
      cases second with
      | error e => exact (Program.traces_done.mp hrest).2
      | ok out' =>
        obtain ⟨_, _, _, -, -, hrest⟩ := Program.traces_bind.mp hrest
        obtain ⟨_, _, _, -, -, hrest⟩ := Program.traces_bind.mp hrest
        exact (Program.traces_done.mp hrest).2
    rw [hkept]
    rcases traces_retry hretry with hsame | ⟨hlocked, herror⟩ | ⟨password, run', hrun', hsecond⟩
    · exact ⟨held, run, by simp [hrun], .inl (hsame.trans hfirst.symm)⟩
    · exact ⟨held, run, by simp [hrun], .inr ⟨herror, out, hfirst, hlocked⟩⟩
    · exact ⟨password, run', by simp [hrun'], .inl hsecond⟩

theorem traces_ls {result : Except LpassError (List ItemSummary)} (h : cli.ls.Traces acts result) :
    ∃ password, ∃ run : LpassRun, .answered (.lpass LISTING password MAX_LISTING_BYTES) run ∈ acts ∧
      (result = parsed (CmdOutput.of password.isSome MAX_LISTING_BYTES run) ∨
        (∃ e, result = .error e) ∧ ∀ stdout, ¬ Printed run stdout) := by
  obtain ⟨out, front, rest, rfl, hrun, hrest⟩ := Program.traces_bind.mp h
  obtain ⟨_, _, _, rfl, hnote, hrest⟩ := Program.traces_bind.mp hrest
  obtain rfl := (Program.traces_done.mp hrest).2
  obtain ⟨password, run, hmem, hout⟩ := traces_run hrun
  refine ⟨password, run, List.mem_append_left _ hmem, ?_⟩
  rcases hout with rfl | ⟨⟨e, rfl⟩, out, hof, hlocked⟩
  · exact .inl rfl
  · refine .inr ⟨⟨e, rfl⟩, ?_⟩
    rintro stdout ⟨stderr, rfl⟩
    rw [CmdOutput.of] at hof
    split_ifs at hof
    obtain rfl := Except.ok.inj hof
    simp [CmdOutput.locked] at hlocked

theorem parsed_of_printed {fed : Bool} {run : LpassRun} {stdout : Bytes} (h : Printed run stdout) :
    parsed (CmdOutput.of fed MAX_LISTING_BYTES run) =
      if MAX_LISTING_BYTES < stdout.length then .error (.fieldTooLarge MAX_LISTING_BYTES)
      else .ok ((lines (fromUtf8Lossy (CmdOutput.stripNewline stdout))).filterMap parseLsLine) := by
  obtain ⟨stderr, rfl⟩ := h
  rw [CmdOutput.of]
  split_ifs <;> rfl

theorem printed_of_parsed {fed : Bool} {run : LpassRun} {found : List ItemSummary}
    (h : parsed (CmdOutput.of fed MAX_LISTING_BYTES run) = .ok found) : ∃ stdout, Printed run stdout := by
  cases run with
  | spawn why => cases h
  | timeout => cases h
  | exited code stdout stderr =>
    by_cases hcode : code = some 0
    · exact ⟨stdout, stderr, by rw [hcode]⟩
    · rw [CmdOutput.of] at h
      split_ifs at h
      · cases h
      · simp [parsed, hcode] at h

theorem listed_of_prints {items found : List ItemSummary} (h : cli.ls.Traces acts (.ok found))
    (hprints : Prints items acts) : (utf8 (listing items)).length ≤ MAX_LISTING_BYTES ∧
      found = (lines (fromUtf8Lossy (CmdOutput.stripNewline (utf8 (listing items))))).filterMap
        parseLsLine := by
  obtain ⟨password, run, hrun, hfound | ⟨⟨e, herror⟩, -⟩⟩ := traces_ls h
  · obtain ⟨stdout, hstdout⟩ := printed_of_parsed hfound.symm
    obtain rfl := hprints password run hrun stdout hstdout
    rw [parsed_of_printed hstdout] at hfound
    split_ifs at hfound with hlong
    exact ⟨not_lt.mp hlong, Except.ok.inj hfound⟩
  · cases herror

/-- Only `lpass` keeps a listing that is not too long from coming to something. -/
theorem answered_of_prints {items : List ItemSummary} {result : Except LpassError (List ItemSummary)}
    (h : cli.ls.Traces acts result) (hprints : Prints items acts)
    (hfits : (utf8 (listing items)).length ≤ MAX_LISTING_BYTES) (halways : AlwaysPrints acts) :
    ∃ found, result = .ok found := by
  obtain ⟨password, run, hrun, hresult⟩ := traces_ls h
  obtain ⟨stdout, hstdout⟩ := halways password run hrun
  rcases hresult with hresult | ⟨-, hnone⟩
  · obtain rfl := hprints password run hrun stdout hstdout
    rw [parsed_of_printed hstdout, if_neg (not_lt.mpr hfits)] at hresult
    exact ⟨_, hresult⟩
  · exact absurd hstdout (hnone stdout)

end LpassCli

/-- Some call of `ls` finds the listing printed at once. -/
theorem exists_traces_ls (cli : LpassCli) (items : List ItemSummary) : ∃ acts result,
    cli.ls.Traces acts result ∧ Prints items acts ∧ AlwaysPrints acts := by
  obtain ⟨acts, result, htraces, hanswers⟩ := Program.exists_traces
    (Sample.answer (.exited (some 0) (utf8 (listing items)) []) []) Sample.world cli.ls
  refine ⟨acts, result, htraces, fun password run hrun stdout hstdout => ?_,
    fun password run hrun => ?_⟩
  · obtain ⟨stderr, rfl⟩ := hstdout
    have hrun := hanswers _ _ hrun
    cases hrun
    rfl
  · exact ⟨_, [], hanswers _ _ hrun⟩

/-- A listing shows just the items of the vault exactly when it is too long to be read at
all, or no item's name has a line feed. -/
theorem lists_exactly_iff (cli : LpassCli) {items : List ItemSummary}
    (hids : ∀ item ∈ items, isItemId item.id = true) :
    (∀ acts result, cli.ls.Traces acts result → Prints items acts →
      ListsExactly items acts result) ↔
    MAX_LISTING_BYTES < (utf8 (listing items)).length ∨
      ∀ item ∈ items, '\n' ∉ item.name.toList := by
  constructor
  · intro hexact
    by_cases hfits : (utf8 (listing items)).length ≤ MAX_LISTING_BYTES
    · right
      obtain ⟨acts, result, htraces, hprints, halways⟩ := exists_traces_ls cli items
      obtain ⟨found, rfl⟩ := (hexact acts result htraces hprints).answered hfits halways
      obtain rfl := (hexact acts _ htraces hprints).same found rfl
      obtain ⟨-, hfound⟩ := LpassCli.listed_of_prints htraces hprints
      intro item hitem
      rw [hfound] at hitem
      obtain ⟨line, hline, hparse⟩ := List.mem_filterMap.mp hitem
      exact ItemSummary.newline_notMem_name (newline_notMem_of_mem_lines hline) hparse
    · exact .inl (not_le.mp hfits)
  · intro hcond acts result htraces hprints
    refine ⟨fun found hfound => ?_, LpassCli.answered_of_prints htraces hprints⟩
    subst hfound
    obtain ⟨hfits, hfound⟩ := LpassCli.listed_of_prints htraces hprints
    rcases hcond with hlong | hnames
    · exact absurd hfits (not_le.mpr hlong)
    · rw [hfound, listed_listing hids hnames]

/-- Names full of markers. -/
def marked : List ItemSummary := [⟨"42", "evil [id: 999] name"⟩, ⟨"7", "\r [id: 42]\r"⟩]

theorem lists_exactly_markers : ∃ acts result,
    (LpassCli.mk .unlock ⟨.prompt, none⟩).ls.Traces acts result ∧ Prints marked acts ∧
      ListsExactly marked acts result := by
  obtain ⟨acts, result, htraces, hprints, -⟩ :=
    exists_traces_ls (.mk .unlock ⟨.prompt, none⟩) marked
  have hexact := (lists_exactly_iff (.mk .unlock ⟨.prompt, none⟩)
    (by decide : ∀ item ∈ marked, isItemId item.id = true)).mpr (.inr (by decide))
  exact ⟨acts, result, htraces, hprints, hexact acts result htraces hprints⟩

/-- One item, with a line feed in its name. -/
def forging : List ItemSummary := [⟨"42", "x [id: 999]\ny"⟩]

theorem listed_forging :
    (lines (fromUtf8Lossy (CmdOutput.stripNewline (utf8 (listing forging))))).filterMap parseLsLine =
      [⟨"999", "x"⟩, ⟨"42", "y"⟩] := by
  rw [forging, ← List.nil_append [_], stripNewline_listing, fromUtf8Lossy_utf8]
  decide +kernel

/-- The vault's one item makes up another. -/
theorem forged_item : ∃ acts found,
    (LpassCli.mk .unlock ⟨.prompt, none⟩).ls.Traces acts (.ok found) ∧
      (∀ item ∈ forging, isItemId item.id = true) ∧ Prints forging acts ∧
      ⟨"999", "x"⟩ ∈ found ∧ ∀ item ∈ forging, item.id ≠ "999" := by
  obtain ⟨acts, result, htraces, hprints, halways⟩ :=
    exists_traces_ls (.mk .unlock ⟨.prompt, none⟩) forging
  obtain ⟨found, rfl⟩ := LpassCli.answered_of_prints htraces hprints (by decide +kernel) halways
  obtain ⟨-, rfl⟩ := LpassCli.listed_of_prints htraces hprints
  rw [listed_forging] at htraces
  exact ⟨acts, _, htraces, by decide, hprints, by decide, by decide⟩

end LastpassSshAgent
