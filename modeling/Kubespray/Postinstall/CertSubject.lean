import Kubespray.Lib.LineEdit
import Kubespray.Lib.Text
import Mathlib.Algebra.Order.BigOperators.Group.List

/-! update-kubeadm-cert.sh: the subject that a certificate has when it is issued again. -/
namespace Kubespray.Postinstall
open Grep LineEdit

/-- An attribute of a subject with its value. -/
abbrev Attribute := List Char × List Char

/-- `[[:space:]]` -/
def isSedSpace (c : Char) : Bool := c ∈ [' ', '\t', '\n', '\x0b', '\x0c', '\r']

/-- The subjects that are printed and read as they stand. -/
structure IsSubject (l : List Attribute) : Prop where
  ne_nil : l ≠ []
  key : ∀ a ∈ l, ∀ c ∈ a.1, isSedSpace c = false ∧ c ∉ [',', '/', '+', '=', ':']
  value : ∀ a ∈ l, ∀ c ∈ a.2, c ∉ [',', '/', '+', '=']
  trimmed : ∀ a ∈ l, a.2.head?.any isSedSpace = false ∧ a.2.getLast?.any isSedSpace = false

/-- A certificate; `above` and `below` are the other lines of its text. -/
structure Certificate where
  subject : List Attribute
  above : List (List Char)
  below : List (List Char)
  others : ∀ l ∈ above ++ below, ¬ "Subject:".toList <:+: l

section Openssl

/-- `K = v` -/
def printAttribute (a : Attribute) : List Char := a.1 ++ (" = ".toList ++ a.2)

/-- `Subject: K1 = v1, K2 = v2`, indented. -/
def subjectLine (l : List Attribute) : List Char :=
  List.replicate 8 ' ' ++ ("Subject:".toList ++ ' ' :: ", ".toList.intercalate (l.map printAttribute))

/-- `openssl x509 -text -noout` -/
def x509Text (c : Certificate) : List (List Char) := c.above ++ subjectLine c.subject :: c.below

/-- What `openssl req -subj` makes of its argument. -/
def parseSubj : List Char → Option (List Attribute)
  | '/' :: rest => (splitChar '/' rest).mapM (splitOnce '=')
  | _ => none

/-- `/K1=v1/K2=v2` -/
def subjText (l : List Attribute) : List Char :=
  '/' :: ['/'].intercalate (l.map fun a => a.1 ++ '=' :: a.2)

end Openssl

section Script

/-- `s/Subject:/\//g;s/\,/\//;s/[[:space:]]//g` -/
def subjOfLine (line : List Char) : List Char :=
  (subFirst (literal ",".toList) ['/'] (sub (literal "Subject:".toList) ['/'] 0 line)).filter
    fun c => !isSedSpace c

/-- cert::get_subj -/
def getSubj (c : Certificate) : List Char :=
  ['\n'].intercalate (((x509Text c).filter (search (literal "Subject:".toList))).map subjOfLine)

inductive CertName where
  | apiserver
  | apiserverKubeletClient
  | frontProxyClient
  | etcdServer
  | etcdPeer
  | etcdHealthcheckClient
  | apiserverEtcdClient
  | controllerManagerConf
  | schedulerConf
  | adminConf
  | kubeletConf
  deriving DecidableEq

/-- The certificates of a node, in their files or in a kubeconf. -/
abbrev Certificates := CertName → Certificate

/-- cert::gen_cert with the subject of the old certificate; a failure ends the script. -/
def renew (certs : Certificates) (n : CertName) : Option Certificates :=
  (parseSubj (getSubj (certs n))).map fun subject =>
    Function.update certs n { certs n with subject := subject }

def etcdCerts : List CertName := [.etcdServer, .etcdPeer, .etcdHealthcheckClient, .apiserverEtcdClient]

def masterConfs (kubeletCertAutoUpdate : Bool) : List CertName :=
  [.controllerManagerConf, .schedulerConf, .adminConf] ++
    if kubeletCertAutoUpdate then [] else [.kubeletConf]

def masterCerts (kubeletCertAutoUpdate : Bool) : List CertName :=
  [.apiserver, .apiserverKubeletClient] ++ masterConfs kubeletCertAutoUpdate ++ [.frontProxyClient]

/-- cert::update_etcd_cert -/
def updateEtcdCert (certs : Certificates) : Option Certificates := etcdCerts.foldlM renew certs

/-- cert::update_master_cert, with cert::update_kubeconf for each kubeconf. -/
def updateMasterCert (kubeletCertAutoUpdate : Bool) (certs : Certificates) : Option Certificates :=
  (masterCerts kubeletCertAutoUpdate).foldlM renew certs

/-- `main all` -/
def updateAll (kubeletCertAutoUpdate : Bool) (certs : Certificates) : Option Certificates := do
  let certs ← updateEtcdCert certs
  updateMasterCert kubeletCertAutoUpdate certs

end Script

section Subject
variable {l : List Attribute}

theorem getSubj_eq (c : Certificate) : getSubj c = subjOfLine (subjectLine c.subject) := by
  have hno : ∀ ls : List (List Char), (∀ x ∈ ls, x ∈ c.above ++ c.below) →
      ls.filter (search (literal "Subject:".toList)) = [] := by
    intro ls hls
    rw [List.filter_eq_nil_iff]
    intro x hx
    rw [search_literal_iff]
    exact c.others x (hls x hx)
  have hyes : search (literal "Subject:".toList) (subjectLine c.subject) = true := by
    rw [search_literal_iff, subjectLine]
    exact List.infix_append_of_infix_right List.infix_append_left
  rw [getSubj, x509Text, List.filter_append, List.filter_cons_of_pos hyes,
    hno c.above fun x hx => List.mem_append_left _ hx, hno c.below fun x hx => List.mem_append_right _ hx]
  simp

theorem mapM_splitOnce_iff (hkey : ∀ a ∈ l, '=' ∉ a.1) (parts : List (List Char)) :
    parts.mapM (splitOnce '=') = some l ↔ parts = l.map fun a => a.1 ++ '=' :: a.2 := by
  induction l generalizing parts with
  | nil =>
    cases parts with
    | nil => simp
    | cons p ps => simp [List.mapM_cons, Option.bind_eq_some_iff]
  | cons a l ih =>
    cases parts with
    | nil => simp
    | cons p ps =>
      have hrest := ih (fun x hx => hkey x (List.mem_cons_of_mem a hx)) ps
      have hfirst := splitOnce_eq_some_iff '=' p a.1 a.2
      simp only [hkey a (by simp), not_false_eq_true, true_and] at hfirst
      rw [List.map_cons, List.cons.injEq, ← hfirst, ← hrest, List.mapM_cons]
      simp [Option.bind_eq_some_iff]

/-- Reading is the inverse of printing with slashes. -/
theorem parseSubj_eq_some_iff (hl : IsSubject l) (out : List Char) :
    parseSubj out = some l ↔ out = subjText l := by
  have hparts : l.map (fun a => a.1 ++ '=' :: a.2) ≠ [] := by simpa using hl.ne_nil
  have hslash : ∀ p ∈ l.map (fun a => a.1 ++ '=' :: a.2), '/' ∉ p := by
    intro p hp
    obtain ⟨a, ha, rfl⟩ := List.mem_map.mp hp
    have hk : '/' ∉ a.1 := fun h => by simpa using (hl.key a ha '/' h).2
    have hv : '/' ∉ a.2 := fun h => by simpa using hl.value a ha '/' h
    simp [hk, hv]
  have hkey : ∀ a ∈ l, '=' ∉ a.1 := fun a ha h => by simpa using (hl.key a ha '=' h).2
  constructor
  · intro h
    rw [parseSubj.eq_def] at h
    split at h
    · rw [subjText, ← (mapM_splitOnce_iff hkey _).mp h, intercalate_splitChar]
    · cases h
  · rintro rfl
    rw [subjText, parseSubj, splitChar_intercalate '/' hparts hslash, mapM_splitOnce_iff hkey]

/-- What stands behind `Subject:`. -/
def printedRest (l : List Attribute) : List Char := ' ' :: ", ".toList.intercalate (l.map printAttribute)

def isKept (c : Char) : Bool := !isSedSpace c

theorem countP_printedRest (hl : IsSubject l) : (printedRest l).countP isKept =
    (l.map fun a => a.1.length + 1 + a.2.countP isKept).sum + (l.length - 1) := by
  have hattr : ∀ a ∈ l, (printAttribute a).countP isKept = a.1.length + 1 + a.2.countP isKept := by
    intro a ha
    have hk : a.1.countP isKept = a.1.length :=
      List.countP_eq_length.mpr fun c hc => by simp [isKept, (hl.key a ha c hc).1]
    have hsep : " = ".toList.countP isKept = 1 := by decide
    rw [printAttribute, List.countP_append, List.countP_append, hk, hsep, Nat.add_assoc]
  have hsep : ", ".toList.countP isKept = 1 := by decide
  have hspace : isKept ' ' = false := by decide
  rw [printedRest, List.countP_cons_of_neg (by simp [hspace]),
    countP_intercalate _ _ (by simpa using hl.ne_nil), hsep, List.map_map, List.length_map, Nat.mul_one]
  exact congrArg (fun ns => List.sum ns + (l.length - 1)) (List.map_congr_left hattr)

theorem length_subjText (hl : IsSubject l) : (subjText l).length =
    1 + (l.map fun a => a.1.length + 1 + a.2.length).sum + (l.length - 1) := by
  have hparts : l.map (fun a => a.1 ++ '=' :: a.2) ≠ [] := by simpa using hl.ne_nil
  have hcount := countP_intercalate (fun _ => true) ['/'] hparts
  have hlen : ∀ a : Attribute, (a.1 ++ '=' :: a.2).length = a.1.length + 1 + a.2.length := fun a => by
    simp
    omega
  simp only [List.countP_true, List.map_map, Function.comp_def, hlen, List.length_map,
    List.length_singleton, Nat.mul_one] at hcount
  rw [subjText, List.length_cons, hcount]
  omega

theorem comma_not_mem (hl : IsSubject l) {a : Attribute} (ha : a ∈ l) : ',' ∉ a.1 ∧ ',' ∉ a.2 :=
  ⟨fun h => by simpa using (hl.key a ha ',' h).2, fun h => by simpa using hl.value a ha ',' h⟩

/-- Commas stand between the parts only. -/
theorem countP_comma_intercalate (sep : List Char) {parts : List (List Char)} (hne : parts ≠ [])
    (h : ∀ p ∈ parts, ',' ∉ p) : (sep.intercalate parts).countP (· = ',') =
      (parts.length - 1) * sep.countP (· = ',') := by
  have hparts : (parts.map fun p => p.countP (· = ',')).sum = 0 := by
    refine List.sum_eq_zero fun n hn => ?_
    obtain ⟨p, hp, rfl⟩ := List.mem_map.mp hn
    exact List.countP_eq_zero.mpr fun c hc hcomma => h p hp (of_decide_eq_true hcomma ▸ hc)
  rw [countP_intercalate _ _ hne, hparts, Nat.zero_add]

theorem comma_not_mem_printAttribute (hl : IsSubject l) {a : Attribute} (ha : a ∈ l) :
    ',' ∉ printAttribute a := by
  simp [printAttribute, comma_not_mem hl ha]

theorem countP_comma_printedRest (hl : IsSubject l) :
    (printedRest l).countP (· = ',') = l.length - 1 := by
  have hsep : ", ".toList.countP (· = ',') = 1 := by decide
  rw [printedRest, List.countP_cons_of_neg (by decide), countP_comma_intercalate _ (by simpa using hl.ne_nil),
    hsep, List.length_map, Nat.mul_one]
  intro p hp
  obtain ⟨a, ha, rfl⟩ := List.mem_map.mp hp
  exact comma_not_mem_printAttribute hl ha

theorem countP_comma_subjText (hl : IsSubject l) : (subjText l).countP (· = ',') = 0 := by
  have hsep : ['/'].countP (· = ',') = 0 := by decide
  rw [subjText, List.countP_cons_of_neg (by decide), countP_comma_intercalate _ (by simpa using hl.ne_nil),
    hsep, Nat.mul_zero]
  intro p hp
  obtain ⟨a, ha, rfl⟩ := List.mem_map.mp hp
  simp [comma_not_mem hl ha]

/-- The substitutions on the line of a subject. -/
theorem subjOfLine_subjectLine : subjOfLine (subjectLine l) =
    (subFirst (literal [',']) ['/'] (List.replicate 8 ' ' ++ ('/' ::
      sub (literal "Subject:".toList) ['/'] 0 (printedRest l)))).filter isKept := by
  have hS : 'S' ∉ List.replicate 8 ' ' := by decide
  have hsub := sub_literal_append (w := "ubject:".toList) (r := ['/']) hS (printedRest l)
  exact congrArg (fun line => (subFirst (literal [',']) ['/'] line).filter isKept) hsub

/-- At most two attributes, with values that the substitutions do not touch. -/
structure Survives (l : List Attribute) : Prop where
  length : l.length ≤ 2
  spaces : ∀ a ∈ l, ∀ c ∈ a.2, isSedSpace c = false
  subject : ∀ a ∈ l, ¬ "Subject:".toList <:+: a.2

/-- The length of the result tells whether the substitutions took a blank or a second `Subject:`. -/
theorem kept_of_eq_subjText (hl : IsSubject l) (h : subjOfLine (subjectLine l) = subjText l) :
    ¬ "Subject:".toList <:+: printedRest l ∧ ∀ a ∈ l, a.2.countP isKept = a.2.length := by
  have hword : ∀ c ∈ "Subject:".toList, isKept c = true := List.all_eq_true.mp (by decide)
  have hshort : ['/'].countP isKept < "Subject:".toList.length := by decide
  have hle := countP_sub_le hword hshort 0 (printedRest l)
  have hsums := List.sum_le_sum (l := l) (f := fun a => a.1.length + 1 + a.2.countP isKept)
    (g := fun a => a.1.length + 1 + a.2.length) fun a _ => Nat.add_le_add_left List.countP_le_length _
  have hlength : 1 + (sub (literal "Subject:".toList) ['/'] 0 (printedRest l)).countP isKept =
      1 + (l.map fun a => a.1.length + 1 + a.2.length).sum + (l.length - 1) := by
    have hcomma : [','].countP isKept = 1 ∧ ['/'].countP isKept = 1 := by decide
    have hfirst := countP_subFirst isKept ',' '/' (List.replicate 8 ' ' ++ ('/' ::
      sub (literal "Subject:".toList) ['/'] 0 (printedRest l)))
    have hfront : (List.replicate 8 ' ').countP isKept = 0 ∧ isKept '/' = true := by decide
    rw [hcomma.1, hcomma.2, Nat.add_right_cancel_iff, List.countP_append, hfront.1,
      List.countP_cons_of_pos hfront.2] at hfirst
    rw [← length_subjText hl, ← h, subjOfLine_subjectLine, ← List.countP_eq_length_filter, hfirst]
    omega
  rw [List.drop_zero, countP_printedRest hl] at hle
  constructor
  · intro hin
    have hlt := countP_sub_lt hword hshort hin
    rw [countP_printedRest hl] at hlt
    omega
  · intro a ha
    by_contra hne
    have hlt := List.sum_lt_sum (l := l) (fun a => a.1.length + 1 + a.2.countP isKept)
      (fun a => a.1.length + 1 + a.2.length)
      (fun a _ => Nat.add_le_add_left List.countP_le_length _)
      ⟨a, ha, Nat.add_lt_add_left (Nat.lt_of_le_of_ne List.countP_le_length hne) _⟩
    omega

theorem printedRest_cons (a b : Attribute) (l : List Attribute) :
    printedRest (a :: b :: l) = ' ' :: printAttribute a ++ ',' :: printedRest (b :: l) := by
  rw [printedRest, List.map_cons, List.map_cons, List.intercalate_cons_cons, printedRest, List.map_cons]
  simp

/-- A second `Subject:` is inside a value. -/
theorem infix_value_of_infix (hkey : ∀ a ∈ l, ':' ∉ a.1) (h : "Subject:".toList <:+: printedRest l) :
    ∃ a ∈ l, "Subject:".toList <:+: a.2 := by
  have hword : ' ' ∉ "Subject:".toList ∧ ',' ∉ "Subject:".toList ∧ "Subject:".toList ≠ [] := by decide
  have hcolon : ∀ u : List Char, ':' ∉ u → ¬ "Subject:".toList <:+: u := fun u hu hin =>
    hu (hin.subset (by decide))
  have hone : ∀ a : Attribute, ':' ∉ a.1 → "Subject:".toList <:+: ' ' :: printAttribute a →
      "Subject:".toList <:+: a.2 := by
    intro a ha hin
    have hsplit : ' ' :: printAttribute a = [] ++ ' ' :: (a.1 ++ ' ' :: (['='] ++ ' ' :: a.2)) := by
      rw [printAttribute]
      rfl
    rw [hsplit, infix_append_sep hword.1 hword.2.2, infix_append_sep hword.1 hword.2.2,
      infix_append_sep hword.1 hword.2.2] at hin
    exact ((hin.resolve_left (hcolon _ (by decide))).resolve_left (hcolon _ ha)).resolve_left
      (hcolon _ (by decide))
  induction l with
  | nil => exact absurd h (hcolon _ (by decide))
  | cons a l ih =>
    cases l with
    | nil => exact ⟨a, by simp, hone a (hkey a (by simp)) (by simpa [printedRest] using h)⟩
    | cons b l =>
      rw [printedRest_cons, infix_append_sep hword.2.1 hword.2.2] at h
      cases h with
      | inl h => exact ⟨a, by simp, hone a (hkey a (by simp)) h⟩
      | inr h =>
        obtain ⟨x, hx, hin⟩ := ih (fun x hx => hkey x (List.mem_cons_of_mem a hx)) h
        exact ⟨x, List.mem_cons_of_mem a hx, hin⟩

theorem filter_printAttribute {a : Attribute} (hk : ∀ c ∈ a.1, isSedSpace c = false)
    (hv : ∀ c ∈ a.2, isSedSpace c = false) :
    (printAttribute a).filter isKept = a.1 ++ '=' :: a.2 := by
  have hkey : a.1.filter isKept = a.1 := List.filter_eq_self.mpr fun c hc => by simp [isKept, hk c hc]
  have hvalue : a.2.filter isKept = a.2 := List.filter_eq_self.mpr fun c hc => by simp [isKept, hv c hc]
  have hsep : " = ".toList.filter isKept = ['='] := by decide
  rw [printAttribute, List.filter_append, List.filter_append, hkey, hvalue, hsep, List.singleton_append]

theorem sub_printedRest (h : ¬ "Subject:".toList <:+: printedRest l) :
    sub (literal "Subject:".toList) ['/'] 0 (printedRest l) = printedRest l :=
  sub_of_not_search (by rwa [← Bool.not_eq_true, search_literal_iff])

/-- One comma at most becomes a slash, and none may be left. -/
theorem length_le_two (hl : IsSubject l) (hno : ¬ "Subject:".toList <:+: printedRest l)
    (h : subjOfLine (subjectLine l) = subjText l) : l.length ≤ 2 := by
  rw [subjOfLine_subjectLine, sub_printedRest hno] at h
  have hfirst := countP_subFirst (· = ',') ',' '/' (List.replicate 8 ' ' ++ '/' :: printedRest l)
  have hfront : (List.replicate 8 ' ').countP (· = ',') = 0 ∧ [','].countP (· = ',') = 1 ∧
      ['/'].countP (· = ',') = 0 := by decide
  have hcommas := congrArg (List.countP (· = ',')) h
  have hkept : ∀ c, (decide (c = ',') && isKept c) = decide (c = ',') := fun c => by
    by_cases hc : c = ',' <;> simp [hc, isKept, isSedSpace]
  simp only [List.countP_filter, hkept] at hcommas
  rw [countP_comma_subjText hl] at hcommas
  rw [hcommas, hfront.2.1, hfront.2.2, List.countP_append, hfront.1,
    List.countP_cons_of_neg (by decide), countP_comma_printedRest hl] at hfirst
  split at hfirst <;> omega

/-- The text before the first comma, or all of it. -/
def front (a : Attribute) : List Char := List.replicate 8 ' ' ++ ('/' :: ' ' :: printAttribute a)

theorem filter_front (a : Attribute) : (front a).filter isKept = '/' :: (printAttribute a).filter isKept := by
  have hblanks : (List.replicate 8 ' ').filter isKept = [] := by decide
  rw [front, List.filter_append, hblanks, List.nil_append, List.filter_cons_of_pos (by decide),
    List.filter_cons_of_neg (by decide)]

theorem printedRest_singleton (a : Attribute) : printedRest [a] = ' ' :: printAttribute a := by
  simp [printedRest]

theorem subjOfLine_singleton {a : Attribute} (hno : ¬ "Subject:".toList <:+: printedRest [a])
    (hcomma : ',' ∉ front a) : subjOfLine (subjectLine [a]) = '/' :: (printAttribute a).filter isKept := by
  have hnone : search (literal [',']) (front a) = false := by
    rw [← Bool.not_eq_true, search_literal_iff]
    exact fun hin => hcomma (hin.subset (by simp))
  rw [subjOfLine_subjectLine, sub_printedRest hno, printedRest_singleton, ← front,
    subFirst_of_not_search hnone, filter_front]

theorem subjOfLine_pair {a b : Attribute} (hno : ¬ "Subject:".toList <:+: printedRest [a, b])
    (hcomma : ',' ∉ front a) : subjOfLine (subjectLine [a, b]) =
      '/' :: (printAttribute a).filter isKept ++ '/' :: (printAttribute b).filter isKept := by
  have hsplit : List.replicate 8 ' ' ++ ('/' :: printedRest [a, b]) = front a ++ ',' :: printedRest [b] := by
    rw [printedRest_cons, front]
    simp
  rw [subjOfLine_subjectLine, sub_printedRest hno, hsplit, subFirst_literal_append hcomma,
    List.filter_append, filter_front, printedRest_singleton, List.singleton_append,
    List.filter_cons_of_pos (by decide), List.filter_cons_of_neg (by decide)]

theorem subjOfLine_eq_iff (hl : IsSubject l) :
    subjOfLine (subjectLine l) = subjText l ↔ Survives l := by
  constructor
  · intro h
    obtain ⟨hno, hvalues⟩ := kept_of_eq_subjText hl h
    refine ⟨length_le_two hl hno h, fun a ha c hc => ?_, fun a ha hin => hno ?_⟩
    · have hkept := List.countP_eq_length.mp (hvalues a ha) c hc
      simpa [isKept] using hkept
    · have hattr : a.2 <:+: printAttribute a :=
        List.infix_append_of_infix_right List.infix_append_right
      have hlist := infix_intercalate_of_mem ", ".toList (List.mem_map_of_mem (f := printAttribute) ha)
      exact hin.trans (hattr.trans (List.infix_cons hlist))
  · intro h
    have hno : ¬ "Subject:".toList <:+: printedRest l := by
      intro hin
      obtain ⟨a, ha, hv⟩ := infix_value_of_infix
        (fun a ha hc => by simpa using (hl.key a ha ':' hc).2) hin
      exact h.subject a ha hv
    have hprinted : ∀ a ∈ l, (printAttribute a).filter isKept = a.1 ++ '=' :: a.2 := fun a ha =>
      filter_printAttribute (fun c hc => (hl.key a ha c hc).1) (h.spaces a ha)
    have hcomma : ∀ a ∈ l, ',' ∉ front a := fun a ha => by
      simp [front, comma_not_mem_printAttribute hl ha]
    match l, hl.ne_nil, h.length with
    | [a], _, _ =>
      rw [subjOfLine_singleton hno (hcomma a (by simp)), hprinted a (by simp)]
      simp [subjText]
    | [a, b], _, _ =>
      rw [subjOfLine_pair hno (hcomma a (by simp)), hprinted a (by simp), hprinted b (by simp)]
      simp [subjText, List.intercalate_cons_cons]

theorem parseSubj_getSubj_iff (c : Certificate) (hc : IsSubject c.subject) :
    parseSubj (getSubj c) = some c.subject ↔ Survives c.subject := by
  rw [parseSubj_eq_some_iff hc, getSubj_eq, subjOfLine_eq_iff hc]

end Subject

section Renewal

/-- The certificates of a node before the renewal. -/
structure CertNode where
  certs : Certificates
  kubeletCertAutoUpdate : Bool
  subjects : ∀ n, IsSubject (certs n).subject

def CertNode.renewed (node : CertNode) : List CertName := etcdCerts ++ masterCerts node.kubeletCertAutoUpdate

/-- Each certificate is issued again for the subject that it had. -/
structure KeepsSubjects (node : CertNode) : Prop where
  parsed : ∀ n ∈ node.renewed, parseSubj (getSubj (node.certs n)) = some (node.certs n).subject
  master : ∃ certs, updateMasterCert node.kubeletCertAutoUpdate node.certs = some certs ∧
    ∀ n, (certs n).subject = (node.certs n).subject
  all : ∃ certs, updateAll node.kubeletCertAutoUpdate node.certs = some certs ∧
    ∀ n, (certs n).subject = (node.certs n).subject

theorem foldlM_renew {certs : Certificates} {names : List CertName}
    (h : ∀ n ∈ names, parseSubj (getSubj (certs n)) = some (certs n).subject) :
    names.foldlM renew certs = some certs := by
  induction names with
  | nil => rfl
  | cons n names ih =>
    have hstep : renew certs n = some certs := by
      rw [renew, h n (by simp), Option.map_some]
      exact congrArg some (Function.update_eq_self n certs)
    rw [List.foldlM_cons, hstep]
    exact ih fun x hx => h x (List.mem_cons_of_mem n hx)

/-- Three attributes, the second of which has a blank in its value. -/
def threeAttributes : List Attribute :=
  [("C".toList, "KR".toList), ("O".toList, "Example Org".toList), ("CN".toList, "kube-apiserver".toList)]

theorem threeAttributes_isSubject : IsSubject threeAttributes := by
  constructor <;> simp [threeAttributes, isSedSpace]

def exampleNode : CertNode where
  certs := fun _ => ⟨threeAttributes, [], [], by simp⟩
  kubeletCertAutoUpdate := true
  subjects := fun _ => threeAttributes_isSubject

end Renewal

end Kubespray.Postinstall
