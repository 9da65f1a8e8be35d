import Kubespray.Lib.Listing
import Mathlib.Data.List.Induction

/-! The handlers that back up the data of etcd (roles/etcd/handlers/backup.yml): each backup has a
directory named after the time, and the oldest of the directories are removed behind it. -/
namespace Kubespray.Etcd
open Listing

/-- ansible_date_time -/
structure Stamp where
  year : Nat
  month : Nat
  day : Nat
  hour : Nat
  minute : Nat
  second : Nat
  year_lt : year < 10 ^ 4
  month_lt : month < 10 ^ 2
  day_lt : day < 10 ^ 2
  hour_lt : hour < 10 ^ 2
  minute_lt : minute < 10 ^ 2
  second_lt : second < 10 ^ 2

namespace Stamp

def fields (t : Stamp) : List Nat := [t.year, t.month, t.day, t.hour, t.minute, t.second]

/-- The earlier of two times. -/
instance : LT Stamp := ⟨fun a b => a.fields < b.fields⟩

instance (a b : Stamp) : Decidable (a < b) := inferInstanceAs (Decidable (a.fields < b.fields))

/-- `etcd-{{ ansible_date_time.date }}_{{ ansible_date_time.time }}` -/
def shape : List (List Char × Nat) :=
  [("etcd-".toList, 4), (['-'], 2), (['-'], 2), (['_'], 2), ([':'], 2), ([':'], 2)]

def directory (t : Stamp) : String := String.ofList (render shape t.fields)

theorem fits (t : Stamp) : Fits shape t.fields :=
  .cons t.year_lt (.cons t.month_lt (.cons t.day_lt (.cons t.hour_lt (.cons t.minute_lt
    (.cons t.second_lt .nil)))))

theorem directory_lt {a b : Stamp} (h : a < b) : a.directory.toList < b.directory.toList := by
  rw [directory, directory, String.toList_ofList, String.toList_ofList]
  exact render_lt h a.fits b.fits

end Stamp

/-- One flush of the handlers. -/
structure Backup where
  stamp : Stamp
  /-- `etcd_cluster_is_healthy.rc == 0` -/
  healthy : Bool
  /-- The directory could be created. -/
  created : Bool
  /-- The v2 data, where there is any, and the snapshot could be saved into it. -/
  saved : Bool

/-- A line that `find .` prints. -/
def findPath (d : String) : List Char := '.' :: '/' :: d.toList

/-- `find . -name 'etcd-*' -type d | sort -n | head -n -k | xargs rm -rf` -/
def removeOldBackups (k : Nat) (dirs : List String) : List String :=
  let old := headBut k (sortNumeric (dirs.map findPath))
  dirs.filter fun d => !old.contains (findPath d)

/-- The directories under etcd_backup_prefix after a flush. -/
def backup (retentionCount : Int) (dirs : List String) (b : Backup) : List String :=
  if !(b.healthy && b.created) then dirs
  else
    let dirs := if b.stamp.directory ∈ dirs then dirs else dirs ++ [b.stamp.directory]
    if b.saved ∧ 0 ≤ retentionCount then removeOldBackups retentionCount.toNat dirs else dirs

section Order

theorem pairwise_directory {l : List Stamp} (hl : l.Pairwise (· < ·)) :
    (l.map Stamp.directory).Pairwise fun a b => a.toList < b.toList :=
  List.pairwise_map.mpr (hl.imp Stamp.directory_lt)

theorem nodup_directory {l : List Stamp} (hl : l.Pairwise (· < ·)) : (l.map Stamp.directory).Nodup := by
  refine (pairwise_directory hl).imp fun hlt heq => ?_
  rw [heq] at hlt
  exact List.lt_irrefl _ hlt

theorem sortNumeric_findPath {dirs : List String} (h : dirs.Pairwise fun a b => a.toList < b.toList) :
    sortNumeric (dirs.map findPath) = dirs.map findPath := by
  refine sortNumeric_of_pairwise (List.pairwise_map.mpr (h.imp fun {a b} hab => ?_))
  have hpaths : findPath a < findPath b :=
    List.cons_lt_cons_iff.mpr (.inr ⟨rfl, List.cons_lt_cons_iff.mpr (.inr ⟨rfl, hab⟩)⟩)
  refine .inr ⟨?_, List.lt_asymm hpaths⟩
  rw [findPath, findPath, numericValue_path, numericValue_path]

theorem findPath_injective : Function.Injective findPath := by
  intro a b hab
  rw [findPath, findPath, List.cons.injEq, List.cons.injEq] at hab
  exact String.toList_inj.mp hab.2.2

/-- What stays is the end of the list, in the order of the times. -/
theorem removeOldBackups_directory (k : Nat) {l : List Stamp} (hl : l.Pairwise (· < ·)) :
    removeOldBackups k (l.map Stamp.directory) = (l.drop (l.length - k)).map Stamp.directory := by
  have hpaths : ∀ d, (headBut k ((l.map Stamp.directory).map findPath)).contains (findPath d) =
      decide (d ∈ (l.map Stamp.directory).take (l.length - k)) := by
    intro d
    rw [headBut, List.length_map, List.length_map, ← List.map_take, List.contains_eq_mem,
      decide_eq_decide.mpr (List.mem_map_of_injective findPath_injective)]
  rw [removeOldBackups, sortNumeric_findPath (pairwise_directory hl)]
  simp only [hpaths, ← decide_not]
  rw [filter_not_mem_take _ (nodup_directory hl), List.map_drop]

end Order

section Retention
variable {count : Int} {old : List Stamp} {bs : List Backup}

def Backup.added (b : Backup) : Bool := b.healthy && b.created

/-- All directories that have ever been there, in the order of the times. -/
def history (old : List Stamp) (bs : List Backup) : List Stamp :=
  old ++ (bs.filter Backup.added).map Backup.stamp

theorem history_append_singleton (old : List Stamp) (bs : List Backup) (b : Backup) :
    history old (bs ++ [b]) = history old bs ++ if b.added then [b.stamp] else [] := by
  rw [history, history, List.filter_append, List.map_append, List.append_assoc]
  cases hb : b.added <;> simp [hb]

/-- One flush behind the directories that are left of earlier ones. -/
theorem backup_directory {l : List Stamp} {b : Backup} (hb : b.added = true)
    (hl : (l ++ [b.stamp]).Pairwise (· < ·)) :
    backup count (l.map Stamp.directory) b = if b.saved ∧ 0 ≤ count then
        ((l ++ [b.stamp]).drop (l.length + 1 - count.toNat)).map Stamp.directory
      else (l ++ [b.stamp]).map Stamp.directory := by
  have hnew : b.stamp.directory ∉ l.map Stamp.directory := by
    have hnodup := nodup_directory hl
    rw [List.map_append, List.nodup_append] at hnodup
    exact fun hm => hnodup.2.2 _ hm _ (by simp) rfl
  have hdirs : l.map Stamp.directory ++ [b.stamp.directory] = (l ++ [b.stamp]).map Stamp.directory := by
    simp
  have hgo : ¬ (!(b.healthy && b.created)) = true := by simpa [Backup.added] using hb
  rw [backup, if_neg hgo, if_neg hnew, hdirs]
  simp only [removeOldBackups_directory _ hl, List.length_append, List.length_singleton]

/-- Over any run of backups at ever later times the directories are the newest of all there have
been: none of the number to be retained is ever removed, and a flush that is completed leaves
exactly these. -/
theorem backups_retained (h : (history old bs).Pairwise (· < ·)) :
    ∃ j, bs.foldl (backup count) (old.map Stamp.directory) =
        ((history old bs).drop j).map Stamp.directory ∧
      (count < 0 → j = 0) ∧ (0 ≤ count → j ≤ (history old bs).length - count.toNat) ∧
      ∀ b, bs.getLast? = some b → b.added = true → b.saved = true → 0 ≤ count →
        j = (history old bs).length - count.toNat := by
  induction bs using List.reverseRecOn with
  | nil => exact ⟨0, by simp [history], fun _ => rfl, fun _ => Nat.zero_le _, by simp⟩
  | append_singleton bs b ih =>
    rw [history_append_singleton] at h ⊢
    obtain ⟨j, hdirs, hall, hle, -⟩ := ih (List.pairwise_append.mp h).1
    rw [List.foldl_append, List.foldl_cons, List.foldl_nil, hdirs]
    cases hb : b.added with
    | false =>
      have hskip : (!b.added) = true := by rw [hb]; rfl
      rw [backup, ← Backup.added, if_pos hskip]
      refine ⟨j, by simp, hall, by simpa using hle, fun x hx hadded => ?_⟩
      obtain rfl : b = x := by simpa using hx
      cases hb.symm.trans hadded
    | true =>
      have hj : j ≤ (history old bs).length := by
        by_cases hc : 0 ≤ count
        · exact Nat.le_trans (hle hc) (Nat.sub_le _ _)
        · rw [hall (by omega)]
          exact Nat.zero_le _
      simp only [hb, if_true] at h ⊢
      have hdrop : (history old bs).drop j ++ [b.stamp] = (history old bs ++ [b.stamp]).drop j := by
        rw [List.drop_append_of_le_length hj]
      have hsorted : ((history old bs).drop j ++ [b.stamp]).Pairwise (· < ·) := by
        rw [hdrop]
        exact h.drop
      rw [backup_directory hb hsorted, hdrop]
      split
      · rename_i hsaved
        refine ⟨(history old bs ++ [b.stamp]).length - count.toNat, ?_, fun hneg => by omega,
          fun _ => Nat.le_refl _, fun _ _ _ _ _ => rfl⟩
        have hbound := hle hsaved.2
        rw [List.drop_drop, List.length_drop, List.length_append, List.length_singleton]
        congr 2
        omega
      · rename_i hkept
        refine ⟨j, rfl, hall, fun hc => ?_, fun x hx _ hsaved hc => ?_⟩
        · have hbound := hle hc
          rw [List.length_append, List.length_singleton]
          omega
        · obtain rfl : b = x := by simpa using hx
          exact absurd ⟨hsaved, hc⟩ hkept

/-- A minute past midnight of some day. -/
def newYear (minute : Nat) (h : minute < 10 ^ 2) : Stamp :=
  ⟨2023, 1, 1, 0, minute, 0, by decide, by decide, by decide, by decide, h, by decide⟩

/-- Three backups, the second of which fails; two are to be retained. -/
theorem backups_retained_three : ∃ j,
    [(⟨newYear 9 (by decide), true, true, true⟩ : Backup), ⟨newYear 10 (by decide), true, true, false⟩,
      ⟨newYear 11 (by decide), true, true, true⟩].foldl (backup 2) [] =
        ([newYear 9 (by decide), newYear 10 (by decide), newYear 11 (by decide)].drop j).map
          Stamp.directory ∧ j = 1 := by
  obtain ⟨j, hdirs, -, -, hlast⟩ := @backups_retained 2 []
    [⟨newYear 9 (by decide), true, true, true⟩, ⟨newYear 10 (by decide), true, true, false⟩,
      ⟨newYear 11 (by decide), true, true, true⟩] (by decide)
  exact ⟨j, hdirs, hlast _ rfl rfl rfl (by decide)⟩

end Retention

end Kubespray.Etcd
