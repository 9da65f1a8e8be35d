import Kubespray.Lib.Grep
import Kubespray.Lib.OrderedDict
import Kubespray.Lib.Runs
import Kubespray.Lib.Text
import Mathlib.Data.Bool.AllAny
import Mathlib.Data.List.Chain

/-! The role kubernetes/tokens: the flags that check-tokens.yml sets, kube-gen-token.sh, and
the copies of gen_tokens.yml, for groups that may grow from run to run. -/
namespace Kubespray.ControlPlane
open Grep

/-- An inventory hostname; of its characters only the dot is special to grep. -/
structure HostName where
  text : String
  plain : ∀ c ∈ text.toList, c.isAlphanum ∨ c ∈ ['-', '_', '.']
  deriving DecidableEq

inductive Component where
  | kubectl
  | kubelet
  deriving DecidableEq

def Component.text : Component → String
  | .kubectl => "system:kubectl"
  | .kubelet => "system:kubelet"

/-- `{{ item[0] }}-{{ item[1] }}` -/
structure Account where
  component : Component
  host : HostName
  deriving DecidableEq

def Account.text (a : Account) : String := a.component.text ++ "-" ++ a.host.text

/-- Base64 text without `=`, `+` and `/`. -/
structure Token where
  text : String
  plain : ∀ c ∈ text.toList, c.isAlphanum
  deriving DecidableEq

structure TokenLine where
  token : Token
  account : Account
  deriving DecidableEq

def TokenLine.text (l : TokenLine) : String :=
  l.token.text ++ "," ++ l.account.text ++ "," ++ l.account.text

/-- kube_token_dir of a host: known_tokens.csv and the files `account.token`. -/
structure TokenDir where
  knownTokens : Option (List TokenLine)
  tokenFiles : OrderedDict String Token

def TokenDir.empty : TokenDir := ⟨none, ∅⟩

/-- kube-gen-token.sh for one account. -/
def kubeGenToken (random : Account → Token) (d : TokenDir) (account : Account) : TokenDir :=
  let lines := d.knownTokens.getD []
  if grep ("," ++ account.text ++ ",") (lines.map TokenLine.text) ≠ [] then
    { d with knownTokens := some lines }
  else
    ⟨some (lines ++ [⟨random account, account⟩]),
      d.tokenFiles.setItem (account.text ++ ".token") (random account)⟩

/-- The groups kube_control_plane and kube_node. -/
structure TokenGroups where
  masters : List HostName
  nodes : List HostName
  nonempty : masters ≠ []
  masters_nodup : masters.Nodup
  nodes_nodup : nodes.Nodup

namespace TokenGroups
variable (g : TokenGroups)

def first : HostName := g.masters.head g.nonempty

/-- The accounts in the order of the two generation tasks. -/
def accounts : List Account :=
  g.masters.map (⟨.kubectl, ·⟩) ++ g.nodes.map (⟨.kubelet, ·⟩)

end TokenGroups

abbrev TokenDirs := HostName → TokenDir

section Role
variable {Digest : Type} [DecidableEq Digest] (checksum : List TokenLine → Digest)

/-- gen_tokens -/
def genTokens (kubeTokenAuth : Bool) (g : TokenGroups) (dirs : TokenDirs) : Bool :=
  (dirs g.first).knownTokens.isNone && kubeTokenAuth

/-- sync_tokens, from the files as they are before any token is generated. -/
def syncTokens (g : TokenGroups) (dirs : TokenDirs) : Bool :=
  g.masters.any fun server => (dirs server).knownTokens.isNone ||
    (dirs server).knownTokens.map checksum ≠ (dirs g.first).knownTokens.map checksum

/-- What is unpacked over a directory: the files of the archive, and those it does not have. -/
def TokenDir.unpack (d archive : TokenDir) : TokenDir :=
  ⟨archive.knownTokens.or d.knownTokens, d.tokenFiles.setAll archive.tokenFiles.entries⟩

/-- Gen_tokens | Gather tokens -/
def gatherTokens (d : TokenDir) : Except String TokenDir :=
  if d.knownTokens.isNone ∧ d.tokenFiles.entries = [] then
    .error "tar: Cowardly refusing to create an empty archive"
  else .ok d

/-- The role on all masters. -/
def tokensRole (kubeTokenAuth : Bool) (g : TokenGroups) (random : Account → Token)
    (dirs : TokenDirs) : Except String TokenDirs := do
  let sync := syncTokens checksum g dirs
  let master :=
    if genTokens kubeTokenAuth g dirs then
      g.accounts.foldl (kubeGenToken random) (dirs g.first)
    else dirs g.first
  let dirs := fun h => if h = g.first then master else dirs h
  if sync then
    let archive ← gatherTokens master
    .ok fun h => if h ∈ g.masters ∧ h ≠ g.first then (dirs h).unpack archive else dirs h
  else .ok dirs

end Role

section Lines

/-- The name, taken for a regular expression, accepts the other name. -/
def HostName.Accepts (h x : HostName) : Prop :=
  List.Forall₂ (fun a c => a = '.' ∨ a = c) h.text.toList x.text.toList

def Account.Accepts (a x : Account) : Prop := a.component = x.component ∧ a.host.Accepts x.host

theorem HostName.accepts_self (h : HostName) : h.Accepts h :=
  List.forall₂_same.mpr fun _ _ => .inr rfl

theorem Account.accepts_self (a : Account) : a.Accepts a := ⟨rfl, a.host.accepts_self⟩

theorem Token.comma_not_mem (t : Token) : ',' ∉ t.text.toList := fun h => by
  have hc := t.plain ',' h
  exact absurd hc (by decide)

theorem Account.comma_not_mem (a : Account) : ',' ∉ a.text.toList := by
  have hhost : ',' ∉ a.host.text.toList := fun h => by
    have hc := a.host.plain ',' h
    exact absurd hc (by decide)
  have hcomponent : ',' ∉ a.component.text.toList := by cases a.component <;> decide
  simp [Account.text, hhost, hcomponent]

/-- The pattern of an account accepts the text of another one only within its kind. -/
theorem Account.accepts_iff (a x : Account) :
    List.Forall₂ (fun c d => c = '.' ∨ c = d) a.text.toList x.text.toList ↔ a.Accepts x := by
  obtain ⟨component, host⟩ := a
  obtain ⟨component', host'⟩ := x
  cases component <;> cases component' <;>
    simp [Account.text, Component.text, Account.Accepts, HostName.Accepts]

/-- A text with two commas has one text between two commas. -/
theorem eq_of_two_commas {u x v t a b : List Char}
    (h : u ++ ',' :: (x ++ ',' :: v) = t ++ ',' :: (a ++ ',' :: b)) (ht : ',' ∉ t) (ha : ',' ∉ a)
    (hb : ',' ∉ b) : x = a := by
  have hcount := congrArg (List.count ',') h
  simp only [List.count_append, List.count_cons_self, List.count_eq_zero_of_not_mem ht,
    List.count_eq_zero_of_not_mem ha, List.count_eq_zero_of_not_mem hb] at hcount
  have hu : ',' ∉ u := List.count_eq_zero.mp (by omega)
  have hx : ',' ∉ x := List.count_eq_zero.mp (by omega)
  have hsplit := congrArg (splitChar ',') h
  rw [splitChar_append _ _ _ hu, splitChar_append _ _ _ hx, splitChar_append _ _ _ ht,
    splitChar_append _ _ _ ha] at hsplit
  exact (List.cons.inj (List.cons.inj hsplit).2).1

/-- What grep finds for an account: the lines of the accounts that its pattern accepts. -/
theorem occurs_line_iff (a : Account) (l : TokenLine) :
    Occurs ("," ++ a.text ++ ",") l.text ↔ a.Accepts l.account := by
  have hpattern : ("," ++ a.text ++ ",").toList = ',' :: (a.text.toList ++ [',']) := by simp
  have hline : l.text.toList = l.token.text.toList ++
      ',' :: (l.account.text.toList ++ ',' :: l.account.text.toList) := by
    simp [TokenLine.text]
  rw [← Account.accepts_iff, Occurs, hpattern, hline]
  constructor
  · intro hocc
    obtain ⟨u, w, v, hw, hpat⟩ := hocc
    cases hpat with
    | cons hc hpat =>
      obtain rfl := hc.resolve_left (by decide)
      rename_i w
      have hname := List.forall₂_take a.text.toList.length hpat
      have hend := List.forall₂_drop a.text.toList.length hpat
      rw [List.take_left] at hname
      rw [List.drop_left] at hend
      have hlast : w.drop a.text.toList.length = [','] := by
        cases hd : w.drop a.text.toList.length with
        | nil => rw [hd] at hend; cases hend
        | cons d ds =>
          rw [hd] at hend
          obtain ⟨hd', hds⟩ := List.forall₂_cons.mp hend
          obtain rfl := hd'.resolve_left (by decide)
          rw [List.forall₂_nil_left_iff.mp hds]
      have hcut : w = w.take a.text.toList.length ++ [','] := by
        rw [← hlast, List.take_append_drop]
      rw [hcut, List.append_assoc, List.cons_append, List.append_assoc, List.singleton_append] at hw
      rwa [eq_of_two_commas hw.symm l.token.comma_not_mem l.account.comma_not_mem
        l.account.comma_not_mem] at hname
  · intro hname
    refine ⟨l.token.text.toList, ',' :: (l.account.text.toList ++ [',']),
      l.account.text.toList, by simp, .cons (.inr rfl) ?_⟩
    exact List.rel_append hname (.cons (.inr rfl) .nil)

end Lines

section Generation
variable (random : Account → Token)

/-- What the script makes of the lines of known_tokens.csv. -/
def genLine (lines : List TokenLine) (account : Account) : List TokenLine :=
  if grep ("," ++ account.text ++ ",") (lines.map TokenLine.text) ≠ [] then lines
  else lines ++ [⟨random account, account⟩]

theorem grep_line_iff (a : Account) (lines : List TokenLine) :
    grep ("," ++ a.text ++ ",") (lines.map TokenLine.text) ≠ [] ↔
      ∃ l ∈ lines, a.Accepts l.account := by
  simp only [ne_eq, List.eq_nil_iff_forall_not_mem, mem_grep, List.mem_map, not_forall, not_not]
  constructor
  · intro hex
    obtain ⟨text, ⟨l, hl, rfl⟩, hocc⟩ := hex
    exact ⟨l, hl, (occurs_line_iff a l).mp hocc⟩
  · intro hex
    obtain ⟨l, hl, hacc⟩ := hex
    exact ⟨l.text, ⟨l, hl, rfl⟩, (occurs_line_iff a l).mpr hacc⟩

theorem genLine_of_accepts {lines : List TokenLine} {a : Account}
    (h : ∃ l ∈ lines, a.Accepts l.account) : genLine random lines a = lines :=
  if_pos ((grep_line_iff a lines).mpr h)

theorem genLine_of_not {lines : List TokenLine} {a : Account}
    (h : ¬ ∃ l ∈ lines, a.Accepts l.account) :
    genLine random lines a = lines ++ [⟨random a, a⟩] :=
  if_neg fun hg => h ((grep_line_iff a lines).mp hg)

theorem kubeGenToken_knownTokens (d : TokenDir) (a : Account) :
    (kubeGenToken random d a).knownTokens = some (genLine random (d.knownTokens.getD []) a) := by
  rw [kubeGenToken, genLine]
  split <;> rfl

/-- known_tokens.csv after the script has run for the accounts. -/
theorem genTokens_knownTokens (as : List Account) (d : TokenDir) (has : as ≠ []) :
    (as.foldl (kubeGenToken random) d).knownTokens =
      some (as.foldl (genLine random) (d.knownTokens.getD [])) := by
  induction as generalizing d with
  | nil => exact absurd rfl has
  | cons a as ih =>
    rw [List.foldl_cons, List.foldl_cons]
    by_cases hne : as = []
    · subst hne
      exact kubeGenToken_knownTokens random d a
    · rw [ih _ hne, kubeGenToken_knownTokens, Option.getD_some]

theorem genLines_initial (as : List Account) (lines : List TokenLine) :
    lines <+: as.foldl (genLine random) lines := by
  induction as generalizing lines with
  | nil => exact List.prefix_rfl
  | cons a as ih =>
    refine List.IsPrefix.trans ?_ (ih (genLine random lines a))
    rw [genLine]
    split
    · exact List.prefix_rfl
    · exact List.prefix_append lines _

theorem genLines_accounts (as : List Account) (lines : List TokenLine) {a : Account}
    (h : a ∈ (as.foldl (genLine random) lines).map TokenLine.account) :
    a ∈ lines.map TokenLine.account ∨ a ∈ as := by
  induction as generalizing lines with
  | nil => exact .inl h
  | cons x as ih =>
    cases ih (genLine random lines x) h with
    | inr hin => exact .inr (List.mem_cons_of_mem x hin)
    | inl hin =>
      rw [genLine] at hin
      split at hin
      · exact .inl hin
      · rw [List.map_append, List.mem_append] at hin
        refine hin.imp id fun hx => ?_
        obtain rfl : a = x := by simpa using hx
        exact List.mem_cons_self

/-- No account gets a second line: its own pattern accepts it. -/
theorem genLines_nodup (as : List Account) (lines : List TokenLine)
    (h : (lines.map TokenLine.account).Nodup) :
    ((as.foldl (genLine random) lines).map TokenLine.account).Nodup := by
  induction as generalizing lines with
  | nil => exact h
  | cons a as ih =>
    refine ih (genLine random lines a) ?_
    by_cases hknown : ∃ l ∈ lines, a.Accepts l.account
    · rwa [genLine_of_accepts random hknown]
    · rw [genLine_of_not random hknown, List.map_append, List.nodup_append]
      refine ⟨h, by simp, fun x hx y hy hxy => hknown ?_⟩
      obtain rfl : y = a := by simpa using hy
      obtain ⟨l, hl, rfl⟩ := List.mem_map.mp hx
      exact ⟨l, hl, hxy ▸ y.accepts_self⟩

/-- All accounts have a line in the end when none is accepted by the pattern of a later one. -/
theorem genLines_complete_iff (as : List Account) (lines : List TokenLine) (hnd : as.Nodup)
    (hnew : ∀ a ∈ as, a ∉ lines.map TokenLine.account) :
    (∀ a ∈ as, a ∈ (as.foldl (genLine random) lines).map TokenLine.account) ↔
      as.Pairwise (fun a x => ¬ x.Accepts a) ∧ ∀ a ∈ as, ∀ l ∈ lines, ¬ a.Accepts l.account := by
  induction as generalizing lines with
  | nil => simp
  | cons a as ih =>
    obtain ⟨ha, hnd'⟩ := List.nodup_cons.mp hnd
    by_cases hknown : ∃ l ∈ lines, a.Accepts l.account
    · -- The account is passed over, and nothing else adds its line.
      obtain ⟨l, hl, hacc⟩ := hknown
      refine iff_of_false (fun hall => ?_) fun hfacts => hfacts.2 a (by simp) l hl hacc
      have hin := hall a (by simp)
      rw [List.foldl_cons, genLine_of_accepts random ⟨l, hl, hacc⟩] at hin
      cases genLines_accounts random as lines hin with
      | inl hlines => exact hnew a (by simp) hlines
      | inr has => exact ha has
    · rw [List.foldl_cons, genLine_of_not random hknown, List.forall_mem_cons]
      have hown : a ∈ (as.foldl (genLine random) (lines ++ [⟨random a, a⟩])).map
          TokenLine.account :=
        List.map_subset _ (genLines_initial random as _).subset (by simp)
      have hnew' : ∀ x ∈ as, x ∉ (lines ++ [(⟨random a, a⟩ : TokenLine)]).map TokenLine.account := by
        intro x hx hmem
        rw [List.map_append, List.mem_append] at hmem
        cases hmem with
        | inl hlines => exact hnew x (List.mem_cons_of_mem a hx) hlines
        | inr hself =>
          obtain rfl : x = a := by simpa using hself
          exact ha hx
      have hfirst : ∀ l ∈ lines, ¬ a.Accepts l.account := fun l hl hacc => hknown ⟨l, hl, hacc⟩
      rw [and_iff_right hown, ih _ hnd' hnew', List.pairwise_cons]
      simp only [List.mem_append, List.mem_singleton, List.forall_mem_cons]
      constructor
      · intro hfacts
        obtain ⟨hpairs, hlines⟩ := hfacts
        exact ⟨⟨fun x hx => hlines x hx _ (.inr rfl), hpairs⟩, hfirst,
          fun x hx l hl => hlines x hx l (.inl hl)⟩
      · intro hfacts
        obtain ⟨⟨hown', hpairs⟩, -, hlines⟩ := hfacts
        refine ⟨hpairs, fun x hx l hl => ?_⟩
        cases hl with
        | inl hl => exact hlines x hx l hl
        | inr hl =>
          subst hl
          exact hown' x hx

end Generation

namespace TokenGroups
variable (g : TokenGroups)

theorem first_mem : g.first ∈ g.masters := List.head_mem g.nonempty

theorem accounts_ne_nil : g.accounts ≠ [] := by simp [accounts, g.nonempty]

theorem mem_accounts (a : Account) : a ∈ g.accounts ↔
    (a.component = .kubectl ∧ a.host ∈ g.masters) ∨ (a.component = .kubelet ∧ a.host ∈ g.nodes) := by
  obtain ⟨component, host⟩ := a
  cases component <;> simp [accounts]

theorem accounts_nodup : g.accounts.Nodup := by
  have hinj : ∀ c, Function.Injective (Account.mk c) := fun c x y h => (Account.mk.inj h).2
  rw [accounts, List.nodup_append]
  refine ⟨g.masters_nodup.map (hinj .kubectl), g.nodes_nodup.map (hinj .kubelet), ?_⟩
  intro a ha b hb hab
  obtain ⟨x, -, rfl⟩ := List.mem_map.mp ha
  obtain ⟨y, -, rfl⟩ := List.mem_map.mp hb
  exact nomatch (Account.mk.inj hab).1

/-- No name is accepted by that of a later host of its group. -/
def Apart : Prop :=
  g.masters.Pairwise (fun h x => ¬ x.Accepts h) ∧ g.nodes.Pairwise (fun h x => ¬ x.Accepts h)

theorem apart_iff : g.Apart ↔ g.accounts.Pairwise fun a x => ¬ x.Accepts a := by
  simp [Apart, accounts, List.pairwise_append, List.pairwise_map, Account.Accepts]

end TokenGroups

structure TokenRun where
  groups : TokenGroups
  random : Account → Token

/-- Hosts may have been added, behind the same first master. -/
structure Grows (r r' : TokenRun) : Prop where
  first : r'.groups.first = r.groups.first
  masters : r.groups.masters ⊆ r'.groups.masters
  nodes : r.groups.nodes ⊆ r'.groups.nodes

/-- After the run each master has one line for each account, and the lines it had before. -/
structure HasTokens (g : TokenGroups) (before after : TokenDirs) : Prop where
  lines : ∀ m ∈ g.masters, ∃ lines, (after m).knownTokens = some lines ∧
    ∀ a ∈ g.accounts, (lines.filter (·.account = a)).length = 1
  kept : ∀ m ∈ g.masters, ∀ old, (before m).knownTokens = some old →
    ∃ lines, (after m).knownTokens = some lines ∧ old ⊆ lines

section Role
variable {Digest : Type} [DecidableEq Digest] (checksum : List TokenLine → Digest)

/-- A run with kube_token_auth on. -/
def tokenStep (dirs : TokenDirs) (r : TokenRun) : Except String TokenDirs :=
  tokensRole checksum true r.groups r.random dirs

/-- All masters have the same file, the other hosts none. -/
structure Issued (g : TokenGroups) (lines : List TokenLine) (dirs : TokenDirs) : Prop where
  masters : ∀ m ∈ g.masters, (dirs m).knownTokens = some lines
  others : ∀ m ∉ g.masters, (dirs m).knownTokens = none

/-- Whenever the copies are made, or no master is without the file, all end with that of the
first master. -/
theorem issued_of_role {g : TokenGroups} {lines : List TokenLine} {dirs : TokenDirs}
    {random : Account → Token}
    (hmaster : (if genTokens true g dirs then g.accounts.foldl (kubeGenToken random) (dirs g.first)
      else dirs g.first).knownTokens = some lines)
    (hsync : syncTokens checksum g dirs = true ∨
      ∀ m ∈ g.masters, m ≠ g.first → (dirs m).knownTokens = some lines)
    (hothers : ∀ m ∉ g.masters, (dirs m).knownTokens = none) :
    ∃ dirs', tokensRole checksum true g random dirs = .ok dirs' ∧ Issued g lines dirs' := by
  set master := if genTokens true g dirs then
    g.accounts.foldl (kubeGenToken random) (dirs g.first) else dirs g.first with hdef
  have hne : ∀ m, m ∉ g.masters → m ≠ g.first := fun m hm he => hm (he ▸ g.first_mem)
  by_cases hs : syncTokens checksum g dirs = true
  · have hgather : gatherTokens master = .ok master := if_neg fun h => by simp [hmaster] at h
    refine ⟨_, by rw [tokensRole, if_pos hs, ← hdef, hgather]; rfl, fun m hm => ?_, fun m hm => ?_⟩
    · by_cases hfirst : m = g.first
      · simp [hfirst, hmaster]
      · simp [hm, hfirst, TokenDir.unpack, hmaster]
    · simp [hm, hne m hm, hothers m hm]
  · have hall := hsync.resolve_left hs
    refine ⟨_, by rw [tokensRole, if_neg hs, ← hdef], fun m hm => ?_, fun m hm => ?_⟩
    · by_cases hfirst : m = g.first
      · simp [hfirst, hmaster]
      · simp [hfirst, hall m hm hfirst]
    · simp [hne m hm, hothers m hm]

/-- The first run generates on the first master and copies to the others. -/
theorem tokenStep_first (r : TokenRun) : ∃ dirs', tokenStep checksum (fun _ => .empty) r = .ok dirs' ∧
    Issued r.groups (r.groups.accounts.foldl (genLine r.random) []) dirs' := by
  refine issued_of_role checksum ?_ (.inl ?_) fun _ _ => rfl
  · have hgen : genTokens true r.groups (fun _ => TokenDir.empty) = true := rfl
    rw [if_pos hgen, genTokens_knownTokens _ _ _ r.groups.accounts_ne_nil]
    rfl
  · rw [syncTokens, List.any_eq_true]
    exact ⟨r.groups.first, r.groups.first_mem, rfl⟩

/-- A later run generates nothing: it only copies the file to the masters that are new. -/
theorem tokenStep_later {lines : List TokenLine} {dirs : TokenDirs} {r r' : TokenRun}
    (h : Issued r.groups lines dirs) (hg : Grows r r') : ∃ dirs',
      tokenStep checksum dirs r' = .ok dirs' ∧ Issued r'.groups lines dirs' := by
  have hfirst : (dirs r'.groups.first).knownTokens = some lines :=
    h.masters _ (hg.first ▸ r.groups.first_mem)
  have hgen : genTokens true r'.groups dirs = false := by rw [genTokens, hfirst]; rfl
  refine issued_of_role checksum (by rw [hgen]; exact hfirst) ?_ fun m hm =>
    h.others m fun hr => hm (hg.masters hr)
  by_cases hs : syncTokens checksum r'.groups dirs = true
  · exact .inl hs
  · refine .inr fun m hm _ => ?_
    by_cases hold : m ∈ r.groups.masters
    · exact h.masters m hold
    · exact absurd (List.any_eq_true.mpr ⟨m, hm, by simp [h.others m hold]⟩) hs

theorem hasTokens_iff {g : TokenGroups} {lines : List TokenLine} {before after : TokenDirs}
    (h : Issued g lines after) (hnd : (lines.map TokenLine.account).Nodup)
    (hkept : ∀ m ∈ g.masters, ∀ old, (before m).knownTokens = some old → old ⊆ lines) :
    HasTokens g before after ↔ ∀ a ∈ g.accounts, a ∈ lines.map TokenLine.account := by
  have hone : ∀ a, (lines.filter (·.account = a)).length = 1 ↔
      a ∈ lines.map TokenLine.account := by
    intro a
    constructor
    · intro hlen
      obtain ⟨l, hl⟩ := List.length_eq_one_iff.mp hlen
      have hmem : l ∈ lines.filter (·.account = a) := by simp [hl]
      obtain ⟨hin, heq⟩ := List.mem_filter.mp hmem
      exact List.mem_map.mpr ⟨l, hin, by simpa using heq⟩
    · intro hin
      obtain ⟨l, hl, rfl⟩ := List.mem_map.mp hin
      rw [filter_key_eq_singleton TokenLine.account lines hnd l hl]
      rfl
  constructor
  · intro ht a ha
    obtain ⟨ls, hls, hall⟩ := ht.lines g.first g.first_mem
    obtain rfl := Option.some.inj ((h.masters _ g.first_mem).symm.trans hls)
    exact (hone a).mp (hall a ha)
  · intro hall
    refine ⟨fun m hm => ⟨lines, h.masters m hm, fun a ha => (hone a).mpr (hall a ha)⟩, ?_⟩
    exact fun m hm old hold => ⟨lines, h.masters m hm, hkept m hm old hold⟩

/-- Once the file is there, each run gives its hosts their tokens exactly when it lists them. -/
theorem laterRuns_iff {lines : List TokenLine} (hnd : (lines.map TokenLine.account).Nodup)
    (r : TokenRun) (rs : List TokenRun) (dirs : TokenDirs) (h : Issued r.groups lines dirs)
    (hg : (r :: rs).IsChain Grows) :
    Runs.Each (tokenStep checksum) (fun before run after => HasTokens run.groups before after)
        dirs rs ↔
      ∀ run ∈ rs, ∀ a ∈ run.groups.accounts, a ∈ lines.map TokenLine.account := by
  induction rs generalizing r dirs with
  | nil => simp [Runs.Each]
  | cons r' rs ih =>
    obtain ⟨hstep, hrest⟩ := List.isChain_cons_cons.mp hg
    obtain ⟨dirs', hdirs', hissued⟩ := tokenStep_later checksum h hstep
    have hkept : ∀ m ∈ r'.groups.masters, ∀ old, (dirs m).knownTokens = some old →
        old ⊆ lines := by
      intro m _ old hold
      by_cases hm : m ∈ r.groups.masters
      · obtain rfl := Option.some.inj ((h.masters m hm).symm.trans hold)
        exact List.Subset.refl _
      · rw [h.others m hm] at hold
        cases hold
    rw [Runs.each_cons_ok hdirs', hasTokens_iff hissued hnd hkept, ih r' dirs' hissued hrest,
      List.forall_mem_cons]

/-- After every run each master has a line for each host exactly when, in the first run, no name
read as a regular expression accepts that of an earlier host of its group, and no host is
added later. -/
theorem everyHostHasToken_iff (runs : List TokenRun) (hg : runs.IsChain Grows) :
    Runs.Each (tokenStep checksum) (fun before run after => HasTokens run.groups before after)
        (fun _ => .empty) runs ↔
      ∀ r ∈ runs.head?, r.groups.Apart ∧ ∀ run ∈ runs.tail,
        run.groups.masters ⊆ r.groups.masters ∧ run.groups.nodes ⊆ r.groups.nodes := by
  cases runs with
  | nil => simp [Runs.Each]
  | cons r rs =>
    obtain ⟨dirs, hdirs, hissued⟩ := tokenStep_first checksum r
    have hnd : ((r.groups.accounts.foldl (genLine r.random) []).map TokenLine.account).Nodup :=
      genLines_nodup r.random _ _ List.nodup_nil
    have hcomplete := genLines_complete_iff r.random r.groups.accounts [] r.groups.accounts_nodup
      (by simp)
    rw [and_iff_left (by simp), ← r.groups.apart_iff] at hcomplete
    rw [Runs.each_cons_ok hdirs, hasTokens_iff hissued hnd (by simp [TokenDir.empty]), hcomplete,
      laterRuns_iff checksum hnd r rs dirs hissued hg]
    simp only [List.head?_cons, Option.mem_def, Option.some.injEq, forall_eq', List.tail_cons]
    refine and_congr_right fun hapart => forall₂_congr fun run _ => ?_
    -- Now the lines are those of the first run's accounts.
    have hlines : ∀ a, a ∈ (r.groups.accounts.foldl (genLine r.random) []).map TokenLine.account ↔
        a ∈ r.groups.accounts := fun a =>
      ⟨fun ha => (genLines_accounts r.random _ _ ha).resolve_left (by simp),
        hcomplete.mpr hapart a⟩
    simp only [hlines, TokenGroups.mem_accounts]
    constructor
    · intro hall
      refine ⟨fun h hh => ?_, fun h hh => ?_⟩
      · simpa using hall ⟨.kubectl, h⟩ (.inl ⟨rfl, hh⟩)
      · simpa using hall ⟨.kubelet, h⟩ (.inr ⟨rfl, hh⟩)
    · intro hsub a ha
      exact ha.imp (And.imp id fun hm => hsub.1 hm) (And.imp id fun hm => hsub.2 hm)

end Role

def node1 : HostName := ⟨"node1", List.all_iff_forall_prop.mp (by decide)⟩

def node2 : HostName := ⟨"node2", List.all_iff_forall_prop.mp (by decide)⟩

def aloneRun : TokenRun where
  groups := ⟨[node1], [node1], by decide, by decide, by decide⟩
  random _ := ⟨"t1", List.all_iff_forall_prop.mp (by decide)⟩

def grownRun : TokenRun where
  groups := ⟨[node1], [node1, node2], by decide, by decide, by decide⟩
  random _ := ⟨"t2", List.all_iff_forall_prop.mp (by decide)⟩

theorem grownRun_chain : [aloneRun, grownRun].IsChain Grows :=
  List.isChain_cons_cons.mpr ⟨⟨rfl, by decide, by decide⟩, .singleton _⟩

theorem grownRun_hasToken_iff :
    Runs.Each (tokenStep id) (fun before run after => HasTokens run.groups before after)
        (fun _ => .empty) [aloneRun, grownRun] ↔
      ∀ r ∈ [aloneRun, grownRun].head?, r.groups.Apart ∧ ∀ run ∈ [aloneRun, grownRun].tail,
        run.groups.masters ⊆ r.groups.masters ∧ run.groups.nodes ⊆ r.groups.nodes :=
  everyHostHasToken_iff id [aloneRun, grownRun] grownRun_chain

/-- A node that is added after the first run gets no token. -/
theorem grownRun_no_token : ¬ ∀ runs : List TokenRun, runs.IsChain Grows →
    Runs.Each (tokenStep id) (fun before run after => HasTokens run.groups before after)
      (fun _ => .empty) runs := by
  intro h
  obtain ⟨d1, h1, -, d2, h2, htokens, -⟩ := h [aloneRun, grownRun] grownRun_chain
  obtain ⟨lines, hlines, hall⟩ := htokens.lines node1 (by decide)
  have hend : ((tokenStep id (fun _ => .empty) aloneRun >>= (tokenStep id · grownRun)).toOption.bind
      fun d => (d node1).knownTokens).map (fun ls => ls.filter (·.account = ⟨.kubelet, node2⟩)) =
        some [] := by decide +kernel
  rw [h1, show (Except.ok d1 >>= (tokenStep id · grownRun)) = tokenStep id d1 grownRun from rfl,
    h2, Except.toOption, Option.bind_some, hlines, Option.map_some, Option.some.injEq] at hend
  have hone := hall ⟨.kubelet, node2⟩ (by decide)
  rw [hend] at hone
  cases hone

end Kubespray.ControlPlane
