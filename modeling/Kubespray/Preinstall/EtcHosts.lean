import Kubespray.Lib.Fields
import Kubespray.Lib.LineEdit
import Kubespray.Lib.OrderedDict
import Mathlib.Data.Bool.AllAny

/-! roles/kubernetes/preinstall/tasks/0090-etchosts.yml: the lines of the two localhost addresses
in /etc/hosts are read, completed and written back. -/
namespace Kubespray.Preinstall
open Grep LineEdit Fields

inductive Address where
  | ipv4
  | ipv6
  deriving DecidableEq

def Address.text : Address → List Char
  | .ipv4 => "127.0.0.1".toList
  | .ipv6 => "::1".toList

/-- A host name as it can stand on a line. -/
structure Alias where
  text : List Char
  ne_nil : text ≠ []
  plain : ∀ c ∈ text, isBlank c = false ∧ c ≠ '#' ∧ c ≠ '\n'

/-- One entry of etc_hosts_localhost_entries. -/
structure HostsEntry where
  expected : List Alias
  unexpected : List (List Char) := []

abbrev LocalhostEntries := OrderedDict Address HostsEntry

section Tasks

/-- `file.readlines()`, without the line ends. -/
def readlines (content : List Char) : List (List Char) :=
  let parts := splitChar '\n' content
  if parts.getLast? = some [] then parts.dropLast else parts

def splitted (item : List Char) : List (List Char) :=
  splitChar ' ' (trim (cutComment (squeeze item)))

/-- `item is match('^::1 .*') or item is match('^127.0.0.1 .*')` -/
def isLocalhostItem (item : List Char) : Bool :=
  matchPrefix (compile "::1 ".toList) item || matchPrefix (compile "127.0.0.1 ".toList) item

/-- etc_hosts_localhosts_dict -/
def localhostsDict (content : List Char) : OrderedDict (List Char) (List (List Char)) :=
  (∅ : OrderedDict (List Char) (List (List Char))).setAll
    (((splitlines content).filter isLocalhostItem).map fun item =>
      ((splitted item).headD [], (splitted item).tail))

/-- The filter `difference`, for lists. -/
def difference (a b : List (List Char)) : List (List Char) := uniqueBy id (a.filter (· ∉ b))

variable (lower : List Char → List Char) (content : List Char) (entries : LocalhostEntries)

/-- The filter `unique` compares without regard to case. -/
def targetNames (a : Address) (e : HostsEntry) : List (List Char) :=
  uniqueBy lower (difference (((localhostsDict content).lookup a.text).getD []) e.unexpected ++
    e.expected.map (·.text))

/-- etc_hosts_localhosts_dict_target -/
def targetDict : OrderedDict Address (List (List Char)) :=
  (∅ : OrderedDict Address (List (List Char))).setAll
    (entries.entries.map fun p => (p.1, targetNames lower content p.1 p.2))

/-- `^{{ item.key }}.*$`; lineinfile matches bytes, so that a dot is a character of one byte. -/
def matchesAddress (a : Address) (line : List Char) : Bool :=
  matchPrefix (compile a.text) line && (line.take a.text.length).all fun c => c.toNat < 128

/-- `{{ item.key }} {{ item.value|join(' ') }}` -/
def entryLine (a : Address) (names : List (List Char)) : List Char :=
  a.text ++ ' ' :: [' '].intercalate names

def updateEntries (target : List (Address × List (List Char))) (lines : List (List Char)) :
    List (List Char) :=
  target.foldl (fun ls t => replaceLast (matchesAddress t.1) (entryLine t.1 t.2) ls) lines

/-- The lines of /etc/hosts after the tasks. -/
def updateHosts : List (List Char) :=
  updateEntries (targetDict lower content entries).entries (readlines content)

end Tasks

section Blocks

/-- The line has the name, for the address in its first field. -/
def OnLine (a : Address) (name : List Char) (lines : List (List Char)) : Prop :=
  ∃ l ∈ lines, (ofLine l).head? = some a.text ∧ name ∈ (ofLine l).tail

def ofNeither (line : List Char) : Bool :=
  (ofLine line).head? ≠ some Address.ipv4.text ∧ (ofLine line).head? ≠ some Address.ipv6.text

/-- The lines that an entry of the address can be read from or written to. -/
def block (a : Address) (line : List Char) : Bool :=
  matchesAddress a line || (ofLine line).head? = some a.text

theorem Address.text_plain (a : Address) : a.text ≠ [] ∧ ∀ c ∈ a.text, isBlank c = false ∧
    isSpace c = false ∧ c ≠ '#' := by
  cases a <;> exact ⟨by decide, List.all_iff_forall_prop.mp (by decide)⟩

theorem block_of_matches {a : Address} {l : List Char} (h : matchesAddress a l = true) :
    block a l = true := by
  rw [block, h, Bool.true_or]

theorem block_of_address {a : Address} {l : List Char} (h : (ofLine l).head? = some a.text) :
    block a l = true := by
  simp [block, h]

theorem find?_of_matches {a : Address} {l : List Char} (h : matchesAddress a l = true) :
    l.find? (fun c => !isBlank c) = a.text.head? := by
  rw [matchesAddress, Bool.and_eq_true] at h
  have hbegins := h.1
  cases l with
  | nil => cases a <;> cases hbegins
  | cons c l =>
    have hc : a.text.head? = some c := by
      cases a with
      | ipv4 =>
        have hlit : decide ('1' = c) = true := (Bool.and_eq_true_iff.mp hbegins).1
        rw [← of_decide_eq_true hlit]
        rfl
      | ipv6 =>
        have hlit : decide (':' = c) = true := (Bool.and_eq_true_iff.mp hbegins).1
        rw [← of_decide_eq_true hlit]
        rfl
    have hplain := a.text_plain.2 c (List.mem_of_mem_head? hc)
    rw [hc, List.find?_cons_of_pos (by simp [hplain.1])]

theorem find?_of_block {a : Address} {l : List Char} (h : block a l = true) :
    l.find? (fun c => !isBlank c) = a.text.head? := by
  rw [block, Bool.or_eq_true, decide_eq_true_iff] at h
  cases h with
  | inl hm => exact find?_of_matches hm
  | inr hw => exact (head?_ofLine hw).symm

theorem address_eq_of_block {a b : Address} {l : List Char} (ha : block a l = true)
    (hb : block b l = true) : a = b := by
  have hhead := (find?_of_block ha).symm.trans (find?_of_block hb)
  cases a <;> cases b <;> first | rfl | exact absurd hhead (by decide)

theorem ofNeither_iff {l : List Char} :
    ofNeither l = true ↔ ∀ a : Address, (ofLine l).head? ≠ some a.text := by
  rw [ofNeither, decide_eq_true_iff]
  refine ⟨fun h a => ?_, fun h => ⟨h .ipv4, h .ipv6⟩⟩
  cases a with
  | ipv4 => exact h.1
  | ipv6 => exact h.2

/-- A line in the place of an entry has a localhost address only as that of the entry. -/
theorem not_ofNeither_iff {a : Address} {l : List Char} (h : matchesAddress a l = true) :
    ofNeither l = false ↔ (ofLine l).head? = some a.text := by
  rw [← Bool.not_eq_true, ofNeither_iff]
  constructor
  · intro hno
    obtain ⟨b, hb⟩ := not_forall_not.mp hno
    rwa [address_eq_of_block (block_of_matches h) (block_of_address hb)]
  · intro hhead hall
    exact hall a hhead

theorem onLine_block_iff {a : Address} {name : List Char} {lines : List (List Char)} :
    OnLine a name (lines.filter (block a)) ↔ OnLine a name lines := by
  constructor
  · intro h
    obtain ⟨l, hl, hw⟩ := h
    exact ⟨l, List.mem_of_mem_filter hl, hw⟩
  · intro h
    obtain ⟨l, hl, hw⟩ := h
    exact ⟨l, List.mem_filter.mpr ⟨hl, block_of_address hw.1⟩, hw⟩

theorem onLine_replaceLast {a : Address} {name line : List Char} {q : List Char → Bool}
    {lines : List (List Char)} : OnLine a name (replaceLast q line lines) ↔
      OnLine a name [line] ∨ OnLine a name (cutLast q lines).others := by
  simp only [OnLine, mem_replaceLast_iff, List.mem_singleton, or_and_right, exists_or]

end Blocks

section Entries

/-- Names that stay apart on a line. -/
def Plain (names : List (List Char)) : Prop := ∀ w ∈ names, ∀ c ∈ w, isBlank c = false ∧ c ≠ '#'

theorem not_mem_intercalate {names : List (List Char)} (h : Plain names) :
    '#' ∉ [' '].intercalate names := by
  induction names with
  | nil => exact List.not_mem_nil
  | cons w ws ih =>
    have hw : '#' ∉ w := fun hc => (h w (by simp) '#' hc).2 rfl
    cases ws with
    | nil => simpa using hw
    | cons x xs =>
      have htail := ih fun y hy => h y (List.mem_cons_of_mem w hy)
      rw [List.intercalate_cons_cons]
      simp [hw, htail]

theorem ofLine_entryLine (a : Address) {names : List (List Char)} (h : Plain names) :
    ofLine (entryLine a names) = a.text :: names.filter (· ≠ []) := by
  have hno : '#' ∉ entryLine a names := by
    have ha : '#' ∉ a.text := fun hc => (a.text_plain.2 '#' hc).2.2 rfl
    simp [entryLine, ha, not_mem_intercalate h]
  rw [ofLine_of_no_comment hno, entryLine, words_append fun c hc => (a.text_plain.2 c hc).1,
    words_intercalate fun w hw c hc => (h w hw c hc).1]
  simp [a.text_plain.1]

theorem block_entryLine (a : Address) {names : List (List Char)} (h : Plain names) :
    block a (entryLine a names) = true :=
  block_of_address (by rw [ofLine_entryLine a h, List.head?_cons])

theorem onLine_entryLine {a : Address} {w : List Char} {names : List (List Char)} (h : Plain names)
    (hw : w ≠ []) : OnLine a w [entryLine a names] ↔ w ∈ names := by
  simp [OnLine, ofLine_entryLine a h, hw]

theorem filter_block_self (a : Address) {names : List (List Char)} (h : Plain names)
    (lines : List (List Char)) :
    (replaceLast (matchesAddress a) (entryLine a names) lines).filter (block a) =
      replaceLast (matchesAddress a) (entryLine a names) (lines.filter (block a)) := by
  have hmatch : ∀ l, matchesAddress a l = true → block a l = true := fun _ hl => block_of_matches hl
  exact filter_replaceLast hmatch (block_entryLine a h) lines

theorem cutLast_block (a : Address) (lines : List (List Char)) :
    cutLast (matchesAddress a) (lines.filter (block a)) =
      ⟨(cutLast (matchesAddress a) lines).before.filter (block a),
        (cutLast (matchesAddress a) lines).line?,
        (cutLast (matchesAddress a) lines).after.filter (block a)⟩ := by
  have hmatch : ∀ l, matchesAddress a l = true → block a l = true := fun _ hl => block_of_matches hl
  exact cutLast_filter hmatch lines

theorem filter_block_of_ne {a b : Address} (hab : a ≠ b) {names : List (List Char)} (h : Plain names)
    (lines : List (List Char)) :
    (replaceLast (matchesAddress a) (entryLine a names) lines).filter (block b) =
      lines.filter (block b) := by
  have hno : ∀ l, block a l = true → block b l = false := fun l ha => by
    cases hb : block b l with
    | false => rfl
    | true => exact absurd (address_eq_of_block ha hb) hab
  exact filter_replaceLast_of_not (hno _ (block_entryLine a h)) fun x hx =>
    hno x (block_of_matches (cutLast_matches hx))

/-- The lines of an address after the run: only its own entry has been written among them. -/
theorem filter_block_updateEntries {target : List (Address × List (List Char))}
    (hplain : ∀ t ∈ target, Plain t.2) (hnodup : (target.map Prod.fst).Nodup) (b : Address)
    (lines : List (List Char)) : (updateEntries target lines).filter (block b) =
      match target.lookup b with
      | none => lines.filter (block b)
      | some names => replaceLast (matchesAddress b) (entryLine b names) (lines.filter (block b)) := by
  induction target generalizing lines with
  | nil => rfl
  | cons t ts ih =>
    obtain ⟨a, names⟩ := t
    have hnames : Plain names := hplain _ List.mem_cons_self
    rw [List.map_cons, List.nodup_cons] at hnodup
    have hrest := ih (fun t ht => hplain t (List.mem_cons_of_mem _ ht)) hnodup.2
      (replaceLast (matchesAddress a) (entryLine a names) lines)
    change (updateEntries ts (replaceLast (matchesAddress a) (entryLine a names) lines)).filter _ = _
    rw [hrest, lookup_cons_if]
    by_cases hb : b = a
    · subst hb
      have hnone : ts.lookup b = none := by
        rw [List.lookup_eq_none_iff]
        intro p hp
        have hmem : p.1 ∈ ts.map Prod.fst := List.mem_map_of_mem hp
        have hne : b ≠ p.1 := fun he => hnodup.1 (he ▸ hmem)
        simpa using hne
      rw [hnone, if_pos rfl]
      exact filter_block_self b hnames lines
    · rw [if_neg hb, filter_block_of_ne (Ne.symm hb) hnames]

theorem ofNeither_entryLine (a : Address) {names : List (List Char)} (h : Plain names) :
    ofNeither (entryLine a names) = false := by
  rw [← Bool.not_eq_true, ofNeither_iff]
  exact fun hall => hall a (by rw [ofLine_entryLine a h, List.head?_cons])

theorem lookup_of_mem {target : List (Address × List (List Char))}
    (hnodup : (target.map Prod.fst).Nodup) {t : Address × List (List Char)} (ht : t ∈ target) :
    target.lookup t.1 = some t.2 :=
  ((⟨target, hnodup⟩ : OrderedDict Address (List (List Char))).lookup_eq_some_iff t.1 t.2).mpr ht

/-- A run keeps the other lines if and only if each line that it replaces has the address of its
entry. -/
theorem filter_ofNeither_updateEntries {target : List (Address × List (List Char))}
    (hplain : ∀ t ∈ target, Plain t.2) (hnodup : (target.map Prod.fst).Nodup)
    (lines : List (List Char)) :
    (updateEntries target lines).filter ofNeither = lines.filter ofNeither ↔
      ∀ t ∈ target, ∀ l, (cutLast (matchesAddress t.1) lines).line? = some l →
        (ofLine l).head? = some t.1.text := by
  constructor
  · intro hkept t ht l hl
    rw [← not_ofNeither_iff (cutLast_matches hl)]
    by_contra hneither
    rw [Bool.not_eq_false] at hneither
    have hblock := filter_block_updateEntries hplain hnodup t.1 lines
    rw [lookup_of_mem hnodup ht] at hblock
    have hcut := (congrArg Cut.line? (cutLast_block t.1 lines)).trans hl
    have hlen := length_filter_replaceLast (ofNeither_entryLine t.1 (hplain t ht)) hcut hneither
    have hsame := congrArg (List.filter (block t.1)) hkept
    simp only [List.filter_filter, Bool.and_comm (block t.1 _)] at hsame
    rw [← List.filter_filter, ← List.filter_filter, hblock] at hsame
    rw [hsame] at hlen
    omega
  · intro h
    induction target generalizing lines with
    | nil => rfl
    | cons t ts ih =>
      obtain ⟨a, names⟩ := t
      have hnames : Plain names := hplain _ List.mem_cons_self
      rw [List.map_cons, List.nodup_cons] at hnodup
      have hstep : (replaceLast (matchesAddress a) (entryLine a names) lines).filter ofNeither =
          lines.filter ofNeither := by
        refine filter_replaceLast_of_not (ofNeither_entryLine a hnames) fun x hx => ?_
        rw [not_ofNeither_iff (cutLast_matches hx)]
        exact h _ List.mem_cons_self x hx
      refine (ih (fun t ht => hplain t (List.mem_cons_of_mem _ ht)) hnodup.2 _ ?_).trans hstep
      -- the line that a later entry replaces is in the block of its own address
      intro t ht l hl
      have hmem : t.1 ∈ ts.map Prod.fst := List.mem_map_of_mem ht
      have hne : a ≠ t.1 := fun he => hnodup.1 (he ▸ hmem)
      refine h t (List.mem_cons_of_mem _ ht) l ?_
      rw [← congrArg Cut.line? (cutLast_block t.1 _), ← filter_block_of_ne hne hnames,
        congrArg Cut.line? (cutLast_block t.1 _)]
      exact hl

end Entries

section Reading

/-- What is read for an address: the words behind it on the last line that begins with it and a
space. -/
def readNames (content : List Char) (a : Address) : List (List Char) :=
  (((splitlines content).filter fun item => (a.text ++ [' ']).isPrefixOf item).getLast?.map
    fun item => (splitted item).tail).getD []

theorem headD_splitted (item : List Char) :
    (splitted item).headD [] = (trim (cutComment (squeeze item))).takeWhile (· ≠ ' ') := by
  rw [List.headD_eq_head?_getD, splitted, head?_splitChar, Option.getD_some]

theorem plain_splitted (item : List Char) : Plain (splitted item) := by
  intro w hw c hc
  obtain ⟨hspace, hin⟩ := of_mem_splitChar hw
  have hcut : c ∈ cutComment (squeeze item) := mem_of_mem_trim (hin c hc)
  have htab : c ≠ '\t' := fun he =>
    tab_not_mem_squeeze item (he ▸ (List.takeWhile_sublist _).subset hcut)
  have hno : c ≠ ' ' := fun he => hspace (he ▸ hc)
  exact ⟨by simp [isBlank, htab, hno], by simpa using List.mem_takeWhile_imp hcut⟩

theorem exists_cons_of_localhost {item : List Char} (h : isLocalhostItem item = true) :
    ∃ c rest, item = c :: rest ∧ isBlank c = false ∧ isSpace c = false ∧ c ≠ '#' := by
  cases item with
  | nil => cases h
  | cons c rest =>
    rw [isLocalhostItem, Bool.or_eq_true] at h
    refine ⟨c, rest, rfl, ?_⟩
    cases h with
    | inl h =>
      have hlit : decide (':' = c) = true := (Bool.and_eq_true_iff.mp h).1
      rw [← of_decide_eq_true hlit]
      decide
    | inr h =>
      have hlit : decide ('1' = c) = true := (Bool.and_eq_true_iff.mp h).1
      rw [← of_decide_eq_true hlit]
      decide

/-- The key of a line that is read stands at its front. -/
theorem headD_splitted_prefix {item : List Char} (h : isLocalhostItem item = true) :
    (splitted item).headD [] <+: item := by
  obtain ⟨c, rest, rfl, hblank, hspace, hhash⟩ := exists_cons_of_localhost h
  have hcut : cutComment (squeeze (c :: rest)) = c :: cutComment (squeeze rest) := by
    rw [squeeze_cons hblank, cutComment, List.takeWhile_cons_of_pos (by simpa using hhash)]
    rfl
  rw [headD_splitted]
  refine prefix_of_squeeze (fun hm => ?_) ?_
  · simpa using List.mem_takeWhile_imp hm
  · refine (List.takeWhile_prefix _).trans (List.IsPrefix.trans ?_ (List.takeWhile_prefix (· ≠ '#')))
    change trim (cutComment (squeeze (c :: rest))) <+: cutComment (squeeze (c :: rest))
    rw [hcut]
    exact trim_prefix hspace _

theorem headD_splitted_append (a : Address) (r : List Char) :
    (splitted (a.text ++ ' ' :: r)).headD [] = a.text := by
  obtain ⟨s, hs⟩ := exists_squeeze_cons (c := ' ') rfl r
  have hcut : cutComment (squeeze (a.text ++ ' ' :: r)) = a.text ++ ' ' :: cutComment s := by
    rw [squeeze_append (fun c hc => (a.text_plain.2 c hc).1), hs, cutComment,
      List.takeWhile_append_of_pos fun c hc => by simpa using (a.text_plain.2 c hc).2.2]
    rfl
  obtain ⟨rest, hrest, htrim⟩ := exists_trim_append (fun c hc => (a.text_plain.2 c hc).2.1)
    a.text_plain.1 (' ' :: cutComment s)
  rw [headD_splitted, hcut, htrim, List.takeWhile_append_of_pos fun c hc => by
    have hne : c ≠ ' ' := fun he => by simpa [isBlank, he] using (a.text_plain.2 c hc).1
    simpa using hne]
  cases rest with
  | nil => simp
  | cons x rest =>
    rw [List.cons_prefix_cons] at hrest
    simp [hrest.1]

/-- The lines whose words are kept under an address begin with it and a space. -/
theorem reads_iff (a : Address) (item : List Char) :
    (isLocalhostItem item = true ∧ (splitted item).headD [] = a.text) ↔
      (a.text ++ [' ']) <+: item := by
  constructor
  · intro h
    obtain ⟨hlocal, hkey⟩ := h
    obtain ⟨r, rfl⟩ := hkey ▸ headD_splitted_prefix hlocal
    cases r with
    | nil => cases a <;> cases hlocal
    | cons c r =>
      have hc : c = ' ' := by
        cases a with
        | ipv4 =>
          have hlit : decide (' ' = c) = true := (Bool.and_eq_true_iff.mp hlocal).1
          exact (of_decide_eq_true hlit).symm
        | ipv6 =>
          have hlit : (decide (' ' = c) && true || false) = true := hlocal
          simpa [eq_comm] using hlit
      rw [hc]
      exact ⟨r, by simp⟩
  · intro h
    obtain ⟨r, rfl⟩ := h
    rw [List.append_assoc, List.singleton_append]
    refine ⟨?_, headD_splitted_append a r⟩
    cases a <;> rfl

theorem getD_lookup_localhostsDict (content : List Char) (a : Address) :
    ((localhostsDict content).lookup a.text).getD [] = readNames content a := by
  have hsel : ((splitlines content).filter isLocalhostItem).filter
      (fun item => (splitted item).headD [] = a.text) =
      (splitlines content).filter fun item => (a.text ++ [' ']).isPrefixOf item := by
    rw [List.filter_filter]
    refine List.filter_congr fun item _ => ?_
    rw [Bool.eq_iff_iff, List.isPrefixOf_iff_prefix, ← reads_iff, Bool.and_eq_true,
      decide_eq_true_iff, and_comm]
  rw [localhostsDict, OrderedDict.lookup_setAll_getLast?, List.filter_map, List.getLast?_map, readNames,
    ← hsel]
  simp only [Option.map_map, OrderedDict.lookup_empty, Option.or_none]
  rfl

variable (lower : List Char → List Char) (content : List Char)

/-- The names for the line of an address, before doubles are left out. -/
def namesFor (a : Address) (e : HostsEntry) : List (List Char) :=
  (readNames content a).filter (· ∉ e.unexpected) ++ e.expected.map (·.text)

theorem mem_targetNames_iff (a : Address) (e : HostsEntry) (w : List Char) :
    w ∈ targetNames lower content a e ↔
      (namesFor content a e).find? (fun x => lower x = lower w) = some w := by
  have hdifference : ∀ l : List (List Char), (difference l e.unexpected).find?
      (fun x => lower x = lower w) = (l.filter (· ∉ e.unexpected)).find? fun x => lower x = lower w :=
    fun l => find?_uniqueBy (fun x y hxy => by rw [show x = y from hxy]) _
  rw [targetNames, mem_uniqueBy_iff, List.find?_append, hdifference, ← List.find?_append,
    getD_lookup_localhostsDict, namesFor]

theorem plain_targetNames (a : Address) (e : HostsEntry) : Plain (targetNames lower content a e) := by
  intro w hw
  have hmem := List.mem_of_find?_eq_some ((mem_targetNames_iff lower content a e w).mp hw)
  rw [namesFor, List.mem_append] at hmem
  cases hmem with
  | inl hread =>
    have hin := List.mem_of_mem_filter hread
    rw [readNames] at hin
    cases hlast : ((splitlines content).filter fun item => (a.text ++ [' ']).isPrefixOf item).getLast? with
    | none => simp [hlast] at hin
    | some item =>
      rw [hlast] at hin
      exact plain_splitted item w (List.mem_of_mem_tail hin)
  | inr hexp =>
    obtain ⟨n, -, rfl⟩ := List.mem_map.mp hexp
    exact fun c hc => ⟨(n.plain c hc).1, (n.plain c hc).2.1⟩

end Reading

section Rewrite
variable (lower : List Char → List Char) (content : List Char) (entries : LocalhostEntries)

/-- The rewrite of /etc/hosts keeps what it should. -/
structure KeepsHostsFile : Prop where
  others : (updateHosts lower content entries).filter ofNeither = (readlines content).filter ofNeither
  aliases : ∀ a name, OnLine a name (readlines content) →
    (∀ e, entries.lookup a = some e → name ∉ e.unexpected) →
    OnLine a name (updateHosts lower content entries)
  expected : ∀ a e, entries.lookup a = some e → ∀ n ∈ e.expected,
    OnLine a n.text (updateHosts lower content entries)

/-- The last line that begins like the address is of the address, and a name that it has or that
is expected is on another line of the address, or the first of its kind among the names for the
new line. -/
structure EntryKept (a : Address) (e : HostsEntry) : Prop where
  address : ∀ l, (cutLast (matchesAddress a) (readlines content)).line? = some l →
    (ofLine l).head? = some a.text
  names : ∀ name, ((∃ l, (cutLast (matchesAddress a) (readlines content)).line? = some l ∧
      name ∈ (ofLine l).tail ∧ name ∉ e.unexpected) ∨ ∃ n ∈ e.expected, n.text = name) →
    OnLine a name (cutLast (matchesAddress a) (readlines content)).others ∨
      (namesFor content a e).find? (fun x => lower x = lower name) = some name

variable {lower content entries}

theorem targetDict_entries : (targetDict lower content entries).entries =
    entries.entries.map fun p => (p.1, targetNames lower content p.1 p.2) := by
  rw [targetDict, OrderedDict.empty_setAll_entries]
  rw [List.map_map]
  exact entries.nodup

theorem plain_targetDict : ∀ t ∈ (targetDict lower content entries).entries, Plain t.2 := by
  intro t ht
  rw [targetDict_entries] at ht
  obtain ⟨p, -, rfl⟩ := List.mem_map.mp ht
  exact plain_targetNames lower content p.1 p.2

theorem filter_block_updateHosts (a : Address) :
    (updateHosts lower content entries).filter (block a) =
      match entries.lookup a with
      | none => (readlines content).filter (block a)
      | some e => replaceLast (matchesAddress a) (entryLine a (targetNames lower content a e))
          ((readlines content).filter (block a)) := by
  have hlookup : (targetDict lower content entries).entries.lookup a =
      (entries.lookup a).map (targetNames lower content a) := by
    rw [targetDict_entries]
    exact lookup_map_snd _ entries.entries a
  rw [updateHosts, filter_block_updateEntries plain_targetDict (targetDict lower content entries).nodup, hlookup]
  cases entries.lookup a with
  | none => rfl
  | some e => rfl

theorem onLine_updateHosts_of_none {a : Address} (ha : entries.lookup a = none) (name : List Char) :
    OnLine a name (updateHosts lower content entries) ↔ OnLine a name (readlines content) := by
  rw [← onLine_block_iff, filter_block_updateHosts, ha, onLine_block_iff]

/-- A name of an address that has an entry is on a line that stays, or on the new one. -/
theorem onLine_updateHosts {a : Address} {e : HostsEntry} (ha : entries.lookup a = some e)
    {name : List Char} (hne : name ≠ []) : OnLine a name (updateHosts lower content entries) ↔
      OnLine a name (cutLast (matchesAddress a) (readlines content)).others ∨
        (namesFor content a e).find? (fun x => lower x = lower name) = some name := by
  have hothers : (cutLast (matchesAddress a) ((readlines content).filter (block a))).others =
      (cutLast (matchesAddress a) (readlines content)).others.filter (block a) := by
    rw [cutLast_block, Cut.others, Cut.others, List.filter_append]
  rw [← onLine_block_iff, filter_block_updateHosts, ha]
  change OnLine a name (replaceLast _ _ _) ↔ _
  rw [onLine_replaceLast, hothers, onLine_block_iff,
    onLine_entryLine (plain_targetNames lower content a e) hne, mem_targetNames_iff, or_comm]

theorem keepsHostsFile_iff : KeepsHostsFile lower content entries ↔
    ∀ a e, entries.lookup a = some e → EntryKept lower content a e := by
  have hothers := filter_ofNeither_updateEntries plain_targetDict
    (targetDict lower content entries).nodup (readlines content)
  constructor
  · intro h a e ha
    have hin : (a, targetNames lower content a e) ∈ (targetDict lower content entries).entries := by
      rw [targetDict_entries]
      exact List.mem_map_of_mem ((entries.lookup_eq_some_iff a e).mp ha)
    have haddress := hothers.mp h.others _ hin
    refine ⟨haddress, fun name hname => ?_⟩
    have hne : name ≠ [] := by
      cases hname with
      | inl hold =>
        obtain ⟨l, -, hl, -⟩ := hold
        exact ne_nil_of_mem_ofLine (List.mem_of_mem_tail hl)
      | inr hexp =>
        obtain ⟨n, -, rfl⟩ := hexp
        exact n.ne_nil
    rw [← onLine_updateHosts ha hne]
    cases hname with
    | inl hold =>
      obtain ⟨l, hl, hon, hok⟩ := hold
      refine h.aliases a name ⟨l, (mem_iff_mem_others _ _ l).mpr (.inl hl), haddress l hl, hon⟩ ?_
      intro e' he'
      obtain rfl : e = e' := Option.some.inj (ha.symm.trans he')
      exact hok
    | inr hexp =>
      obtain ⟨n, hn, rfl⟩ := hexp
      exact h.expected a e ha n hn
  · intro h
    refine ⟨hothers.mpr fun t ht => ?_, fun a name hon hok => ?_, fun a e ha n hn => ?_⟩
    · rw [targetDict_entries] at ht
      obtain ⟨p, hp, rfl⟩ := List.mem_map.mp ht
      exact (h p.1 p.2 ((entries.lookup_eq_some_iff p.1 p.2).mpr hp)).address
    · cases ha : entries.lookup a with
      | none => exact (onLine_updateHosts_of_none ha name).mpr hon
      | some e =>
        obtain ⟨l, hl, hhead, hname⟩ := hon
        rw [onLine_updateHosts ha (ne_nil_of_mem_ofLine (List.mem_of_mem_tail hname))]
        cases (mem_iff_mem_others (matchesAddress a) _ l).mp hl with
        | inl hcut => exact (h a e ha).names name (.inl ⟨l, hcut, hname, hok e ha⟩)
        | inr hother => exact .inl ⟨l, hother, hhead, hname⟩
    · rw [onLine_updateHosts ha n.ne_nil]
      exact (h a e ha).names n.text (.inr ⟨n, hn, rfl⟩)

end Rewrite

/-- etc_hosts_localhost_entries of defaults/main.yml -/
def defaultEntries : LocalhostEntries where
  entries := [
    (.ipv4, {
      expected := [⟨"localhost".toList, by decide, List.all_iff_forall_prop.mp (by decide)⟩,
        ⟨"localhost.localdomain".toList, by decide, List.all_iff_forall_prop.mp (by decide)⟩] }),
    (.ipv6, {
      expected := [⟨"localhost6".toList, by decide, List.all_iff_forall_prop.mp (by decide)⟩,
        ⟨"localhost6.localdomain".toList, by decide, List.all_iff_forall_prop.mp (by decide)⟩]
      unexpected := ["localhost".toList, "localhost.localdomain".toList] })]
  nodup := by decide

/-- A tab stands after the address: the line is not read, and yet replaced. -/
def tabbedHosts : List Char := "127.0.0.1\tlocalhost build\n".toList

theorem updateHosts_tabbed : updateHosts (List.map Char.toLower) tabbedHosts defaultEntries =
    ["127.0.0.1 localhost localhost.localdomain".toList, "::1 localhost6 localhost6.localdomain".toList] := by
  decide +kernel

theorem build_alias_lost : ¬ ∀ (content : List Char) (entries : LocalhostEntries),
    KeepsHostsFile (List.map Char.toLower) content entries := by
  intro h
  have hkept := (h tabbedHosts defaultEntries).aliases .ipv4 "build".toList
  rw [updateHosts_tabbed] at hkept
  have hon : OnLine .ipv4 "build".toList (readlines tabbedHosts) := by
    refine ⟨"127.0.0.1\tlocalhost build".toList, ?_, ?_⟩ <;> decide
  obtain ⟨l, hl, hline⟩ := hkept hon fun e he => by
    obtain rfl := Option.some.inj he
    exact List.not_mem_nil
  revert l
  decide

end Kubespray.Preinstall
