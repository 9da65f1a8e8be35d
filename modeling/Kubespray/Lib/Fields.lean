import Kubespray.Lib.Text
import Mathlib.Data.List.DropRight
import Mathlib.Tactic.IntervalCases

/-! The fields of a line: words between spaces and tabs, up to a comment. -/
namespace Fields

def isBlank (c : Char) : Bool := c = ' ' ∨ c = '\t'

def cutComment (cs : List Char) : List Char := cs.takeWhile (· ≠ '#')

def words (cs : List Char) : List (List Char) :=
  (splitChar ' ' (cs.map fun c => if c = '\t' then ' ' else c)).filter (· ≠ [])

def ofLine (line : List Char) : List (List Char) := words (cutComment line)

/-- Every run of spaces and tabs becomes one space. -/
def squeeze : List Char → List Char
  | [] => []
  | c :: cs =>
    if isBlank c then
      match squeeze cs with
      | ' ' :: rest => ' ' :: rest
      | rest => ' ' :: rest
    else c :: squeeze cs

/-- The whitespace of Python's str.strip(). -/
def isSpace (c : Char) : Bool :=
  c ∈ [' ', '\t', '\u1680', '\u00a0', '\u202f', '\u205f', '\u3000', '\x1f'] ∨ isLineBreak c ∨
    0x2000 ≤ c.toNat ∧ c.toNat ≤ 0x200a

/-- `text.strip()` -/
def trim (cs : List Char) : List Char := (cs.dropWhile isSpace).rdropWhile isSpace

theorem words_blank {c : Char} (hc : isBlank c = true) (cs : List Char) : words (c :: cs) = words cs := by
  have hspace : (if c = '\t' then ' ' else c) = ' ' := by
    split
    · rfl
    · rename_i hno
      simpa [isBlank, hno] using hc
  simp [words, splitChar, hspace]

theorem map_of_not_blank {w : List Char} (hw : ∀ c ∈ w, isBlank c = false) :
    (w.map fun c => if c = '\t' then ' ' else c) = w := by
  refine (List.map_congr_left fun c hc => ?_).trans (List.map_id w)
  have htab : c ≠ '\t' := fun h => by simpa [isBlank, h] using hw c hc
  simp [htab]

theorem space_not_mem {w : List Char} (hw : ∀ c ∈ w, isBlank c = false) : ' ' ∉ w := fun h => by
  simpa [isBlank] using hw ' ' h

theorem words_word {w : List Char} (hw : ∀ c ∈ w, isBlank c = false) :
    words w = [w].filter (· ≠ []) := by
  rw [words, map_of_not_blank hw, splitChar_of_not_mem ' ' w (space_not_mem hw)]

theorem words_append {w : List Char} (hw : ∀ c ∈ w, isBlank c = false) (cs : List Char) :
    words (w ++ ' ' :: cs) = [w].filter (· ≠ []) ++ words cs := by
  have hspace : (if ' ' = '\t' then ' ' else ' ') = ' ' := by decide
  rw [words, List.map_append, List.map_cons, map_of_not_blank hw, hspace,
    splitChar_append ' ' w _ (space_not_mem hw), ← List.singleton_append, List.filter_append, words]

theorem words_append_tab {w : List Char} (hw : ∀ c ∈ w, isBlank c = false) (cs : List Char) :
    words (w ++ '\t' :: cs) = [w].filter (· ≠ []) ++ words cs := by
  rw [← words_append hw, words, words, List.map_append, List.map_append]
  rfl

theorem words_replicate (n : ℕ) (cs : List Char) : words (List.replicate n ' ' ++ cs) = words cs := by
  induction n with
  | zero => rfl
  | succ n ih => rw [List.replicate_succ, List.cons_append, words_blank (by decide), ih]

/-- Words joined with single spaces are read back. -/
theorem words_intercalate {ws : List (List Char)} (hws : ∀ w ∈ ws, ∀ c ∈ w, isBlank c = false) :
    words ([' '].intercalate ws) = ws.filter (· ≠ []) := by
  induction ws with
  | nil => rfl
  | cons w ws ih =>
    have hw := hws w (by simp)
    cases ws with
    | nil => simpa using words_word hw
    | cons x xs =>
      have htail := ih fun y hy => hws y (List.mem_cons_of_mem w hy)
      rw [List.intercalate_cons_cons, List.append_assoc, List.singleton_append, words_append hw, htail,
        ← List.filter_append, List.singleton_append]

/-- The first word begins with the first character that is no blank. -/
theorem head?_words {cs w : List Char} (h : (words cs).head? = some w) :
    w.head? = cs.find? (fun c => !isBlank c) := by
  induction cs with
  | nil => simp [words, splitChar] at h
  | cons c cs ih =>
    by_cases hc : isBlank c = true
    · rw [words_blank hc] at h
      simpa [hc] using ih h
    · have htab : c ≠ '\t' := fun he => hc (by simp [isBlank, he])
      have hspace : c ≠ ' ' := fun he => hc (by simp [isBlank, he])
      rw [List.find?_cons_of_pos (by simpa using hc)]
      rw [words, List.map_cons, if_neg htab, splitChar, if_neg hspace] at h
      split at h
      all_goals
        obtain rfl := by simpa using h
        rfl

theorem ne_nil_of_mem_ofLine {line w : List Char} (h : w ∈ ofLine line) : w ≠ [] := by
  simpa using List.of_mem_filter h

theorem head?_ofLine {line w : List Char} (h : (ofLine line).head? = some w) :
    w.head? = line.find? (fun c => !isBlank c) := by
  have hcut := head?_words h
  cases hw : w.head? with
  | none => exact absurd (List.head?_eq_none_iff.mp hw) (ne_nil_of_mem_ofLine (List.mem_of_mem_head? h))
  | some c =>
    rw [hw] at hcut
    have hline : line = cutComment line ++ line.dropWhile (· ≠ '#') := List.takeWhile_append_dropWhile.symm
    rw [hline, List.find?_append, ← hcut, Option.some_or]

theorem ofLine_of_no_comment {cs : List Char} (h : '#' ∉ cs) : ofLine cs = words cs := by
  rw [ofLine, cutComment, List.takeWhile_eq_self_iff.mpr]
  intro c hc
  have hne : c ≠ '#' := fun he => h (he ▸ hc)
  simpa using hne

section Squeeze

theorem squeeze_cons {c : Char} (hc : isBlank c = false) (cs : List Char) :
    squeeze (c :: cs) = c :: squeeze cs := by
  rw [squeeze, if_neg (by simp [hc])]

theorem exists_squeeze_cons {c : Char} (hc : isBlank c = true) (cs : List Char) :
    ∃ rest, squeeze (c :: cs) = ' ' :: rest := by
  rw [squeeze, if_pos hc]
  split
  · exact ⟨_, rfl⟩
  · exact ⟨_, rfl⟩

theorem squeeze_append {w : List Char} (hw : ∀ c ∈ w, isBlank c = false) (cs : List Char) :
    squeeze (w ++ cs) = w ++ squeeze cs := by
  induction w with
  | nil => rfl
  | cons c w ih =>
    rw [List.cons_append, squeeze_cons (hw c (by simp)), ih fun x hx => hw x (List.mem_cons_of_mem c hx),
      List.cons_append]

theorem tab_not_mem_squeeze (cs : List Char) : '\t' ∉ squeeze cs := by
  induction cs with
  | nil => simp [squeeze]
  | cons c cs ih =>
    by_cases hc : isBlank c = true
    · rw [squeeze, if_pos hc]
      split
      · rename_i rest hs
        rwa [hs] at ih
      · simpa using ih
    · have htab : c ≠ '\t' := fun he => hc (by simp [isBlank, he])
      rw [squeeze_cons (by simpa using hc)]
      simp [ih, Ne.symm htab]

/-- What stands before the first space is not changed. -/
theorem prefix_of_squeeze {k cs : List Char} (hk : ' ' ∉ k) (h : k <+: squeeze cs) : k <+: cs := by
  induction k generalizing cs with
  | nil => exact List.nil_prefix
  | cons x k ih =>
    have hx : x ≠ ' ' := fun he => hk (by simp [he])
    cases cs with
    | nil => simp [squeeze] at h
    | cons c cs =>
      by_cases hc : isBlank c = true
      · obtain ⟨rest, hrest⟩ := exists_squeeze_cons hc cs
        rw [hrest, List.cons_prefix_cons] at h
        exact absurd h.1 hx
      · rw [squeeze_cons (by simpa using hc), List.cons_prefix_cons] at h
        rw [List.cons_prefix_cons]
        exact ⟨h.1, ih (fun hm => hk (List.mem_cons_of_mem x hm)) h.2⟩

end Squeeze

section Trim

theorem mem_of_mem_trim {c : Char} {cs : List Char} (h : c ∈ trim cs) : c ∈ cs :=
  (List.dropWhile_sublist _).subset ((List.rdropWhile_prefix _ _).subset h)

theorem trim_prefix {c : Char} (hc : isSpace c = false) (cs : List Char) : trim (c :: cs) <+: c :: cs := by
  rw [trim, List.dropWhile_cons_of_neg (by simp [hc])]
  exact List.rdropWhile_prefix _ _

/-- A word at the front stays when the text is trimmed. -/
theorem exists_trim_append {w : List Char} (hw : ∀ c ∈ w, isSpace c = false) (hne : w ≠ [])
    (cs : List Char) : ∃ rest, rest <+: cs ∧ trim (w ++ cs) = w ++ rest := by
  have hdrop : (w ++ cs).dropWhile isSpace = w ++ cs := by
    cases w with
    | nil => exact absurd rfl hne
    | cons c w => exact List.dropWhile_cons_of_neg (by simp [hw c (by simp)])
  rw [trim, hdrop]
  induction cs using List.reverseRecOn with
  | nil =>
    refine ⟨[], List.prefix_rfl, ?_⟩
    rw [List.append_nil, List.rdropWhile_eq_self_iff]
    intro hl
    simp [hw _ (List.getLast_mem hl)]
  | append_singleton cs c ih =>
    by_cases hc : isSpace c = true
    · obtain ⟨rest, hpre, hrest⟩ := ih (by
        cases w with
        | nil => exact absurd rfl hne
        | cons x w => exact List.dropWhile_cons_of_neg (by simp [hw x (by simp)]))
      refine ⟨rest, hpre.trans (List.prefix_append cs [c]), ?_⟩
      rw [← List.append_assoc, List.rdropWhile_concat_pos _ _ _ hc, hrest]
    · refine ⟨cs ++ [c], List.prefix_rfl, ?_⟩
      rw [← List.append_assoc, List.rdropWhile_concat_neg _ _ _ hc]

theorem trim_space_cons (cs : List Char) : trim (' ' :: cs) = trim cs := by
  rw [trim, List.dropWhile_cons_of_pos (by decide), trim]

theorem trim_append_space {w : List Char} (hw : ∀ c ∈ w, isSpace c = false) (hne : w ≠ []) :
    trim (w ++ [' ']) = w := by
  have hdrop : (w ++ [' ']).dropWhile isSpace = w ++ [' '] := by
    cases w with
    | nil => exact absurd rfl hne
    | cons c w => exact List.dropWhile_cons_of_neg (by simp [hw c (by simp)])
  rw [trim, hdrop, List.rdropWhile_concat_pos _ _ _ (by decide), List.rdropWhile_eq_self_iff]
  intro hl
  simp [hw _ (List.getLast_mem hl)]

/-- No whitespace stands at the ends of what is trimmed. -/
theorem trim_ends (cs : List Char) :
    (trim cs).head?.any isSpace = false ∧ (trim cs).getLast?.any isSpace = false := by
  constructor
  · cases hd : cs.dropWhile isSpace with
    | nil => simp [trim, hd]
    | cons c ds =>
      have hc : isSpace c = false := by
        have hne : cs.dropWhile isSpace ≠ [] := by simp [hd]
        have hhead := List.head_dropWhile_not isSpace hne
        simpa [hd] using hhead
      have hpre : trim cs <+: c :: ds := by
        rw [trim, hd]
        exact List.rdropWhile_prefix _ _
      cases ht : trim cs with
      | nil => rfl
      | cons x xs =>
        rw [ht] at hpre
        simpa [(List.cons_prefix_cons.mp hpre).1] using hc
  · by_cases hne : trim cs = []
    · simp [hne]
    · rw [List.getLast?_eq_some_getLast hne]
      have hlast := List.rdropWhile_last_not isSpace (cs.dropWhile isSpace) hne
      simpa [trim] using hlast

theorem trim_eq_self {cs : List Char} (hhead : cs.head?.any isSpace = false)
    (hlast : cs.getLast?.any isSpace = false) : trim cs = cs := by
  have hdrop : cs.dropWhile isSpace = cs := by
    cases cs with
    | nil => rfl
    | cons c cs => exact List.dropWhile_cons_of_neg (by simpa using hhead)
  rw [trim, hdrop, List.rdropWhile_eq_self_iff]
  intro hne
  simpa [List.getLast?_eq_some_getLast hne] using hlast

theorem isSpace_of_isDigit {c : Char} (h : c.isDigit = true) : isSpace c = false := by
  obtain ⟨hlow, hhigh⟩ : 48 ≤ c.toNat ∧ c.toNat ≤ 57 := by
    simpa [Char.isDigit, UInt32.le_iff_toNat_le] using h
  rw [← Char.ofNat_toNat c]
  interval_cases c.toNat <;> decide

end Trim

end Fields
